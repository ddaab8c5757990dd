import NetworkLib.Theory.Loop

/-! # Loops that pass messages to a callback

A **reader** takes messages off an input one after another, whatever becomes of them. A **callback**
processes a message in a state of its own and has an outcome, and some outcomes **escape** from the
loop around it.

* `Reader.messages r` — the messages of an input, each with the input behind it.
* `outcomes f escapes a ms` — the outcomes of the callback on messages, up to the first that
  escapes.
* `Dispatches` — what one turn of a loop has to do for the loop to pass a reader's messages on.
* `Dispatches.dispatched` — what the whole loop does then: it passes all messages on and leaves, or
  ends with the first outcome that escapes. -/

namespace NetworkLib

open Loop

/-! ## Readers -/

/-- How messages `μ` are taken off an input `ρ`, whose unread part is a list of `β`s. -/
structure Reader (ρ μ β : Type*) where
  /-- Take a message off the input, or something that is passed over. -/
  next : ρ → Option (Option μ × ρ)
  left : ρ → List β
  rank : ρ → ℕ
  rank_lt : ∀ {r x r'}, next r = some (x, r') → rank r' < rank r
  left_suffix : ∀ {r x r'}, next r = some (x, r') → left r' <:+ left r

namespace Reader

variable {ρ μ β : Type*} (R : Reader ρ μ β)

/-- **The messages of an input**, each with the input behind it. -/
def messages (r : ρ) : List (μ × ρ) :=
  match _h : R.next r with
  | none => []
  | some (none, r') => messages r'
  | some (some m, r') => (m, r') :: messages r'
termination_by R.rank r
decreasing_by all_goals exact R.rank_lt ‹_›

/-- The input behind everything that can be taken off it. -/
def last (r : ρ) : ρ :=
  match _h : R.next r with
  | none => r
  | some (_, r') => last r'
termination_by R.rank r
decreasing_by exact R.rank_lt ‹_›

variable {R} {r r' : ρ} {m : μ} {x : Option μ}

/-- Where the reader takes nothing there is no message. -/
theorem messages_of_none (h : R.next r = none) : R.messages r = [] := by
  rw [messages]
  split
  · rfl
  · next h' => rw [h] at h'; cases h'
  · next h' => rw [h] at h'; cases h'

/-- A step that hands nothing over adds no message. -/
theorem messages_of_skip (h : R.next r = some (none, r')) : R.messages r = R.messages r' := by
  rw [messages]
  split
  · next h' => rw [h] at h'; cases h'
  · next h' => rw [h] at h'; cases h'; rfl
  · next h' => rw [h] at h'; cases h'

/-- A step that hands a message over adds it, with what is left behind it. -/
theorem messages_of_message (h : R.next r = some (some m, r')) :
    R.messages r = (m, r') :: R.messages r' := by
  rw [messages]
  split
  · next h' => rw [h] at h'; cases h'
  · next h' => rw [h] at h'; cases h'
  · next h' => rw [h] at h'; cases h'; rfl

/-- Where the reader takes nothing it stays. -/
theorem last_of_none (h : R.next r = none) : R.last r = r := by
  rw [last]
  split
  · rfl
  · next h' => rw [h] at h'; cases h'

/-- Every step leads to the same end. -/
theorem last_of_some (h : R.next r = some (x, r')) : R.last r = R.last r' := by
  rw [last]
  split
  · next h' => rw [h] at h'; cases h'
  · next h' => rw [h] at h'; cases h'; rfl

/-- **Rule of invariants** for taking everything off an input. -/
theorem last_induction {P : ρ → Prop} (hstep : ∀ r x r', P r → R.next r = some (x, r') → P r')
    (hr : P r) : P (R.last r) := by
  induction hn : R.rank r using Nat.strongRecOn generalizing r with
  | ind n ih =>
      cases h : R.next r with
      | none => rwa [last_of_none h]
      | some p =>
          obtain ⟨x, r'⟩ := p
          rw [last_of_some h]
          exact ih _ (hn ▸ R.rank_lt h) (hstep r x r' hr h) rfl

/-- What is left behind the last message is left behind the input too. -/
theorem left_last (r : ρ) : R.left (R.last r) <:+ R.left r :=
  last_induction (P := fun q => R.left q <:+ R.left r)
    (fun _ _ _ hq hnext => (R.left_suffix hnext).trans hq) (List.suffix_refl _)

/-- What is left in the end is left behind every message. -/
theorem left_last_of_mem {p : μ × ρ} (hp : p ∈ R.messages r) :
    R.left (R.last r) <:+ R.left p.2 := by
  induction hn : R.rank r using Nat.strongRecOn generalizing r with
  | ind n ih =>
      cases h : R.next r with
      | none =>
          rw [messages_of_none h] at hp
          cases hp
      | some q =>
          obtain ⟨x, r'⟩ := q
          have hlt := hn ▸ R.rank_lt h
          rw [last_of_some h]
          cases x with
          | none =>
              rw [messages_of_skip h] at hp
              exact ih _ hlt hp rfl
          | some m =>
              rw [messages_of_message h, List.mem_cons] at hp
              rcases hp with rfl | hp
              · exact left_last r'
              · exact ih _ hlt hp rfl

/-- The messages in another form. -/
def map {ν : Type*} (R : Reader ρ μ β) (g : μ → ν) : Reader ρ ν β where
  next r := (R.next r).map fun p => (p.1.map g, p.2)
  left := R.left
  rank := R.rank
  rank_lt h := by
    obtain ⟨⟨x, r⟩, hnext, heq⟩ := Option.map_eq_some_iff.mp h
    cases heq
    exact R.rank_lt hnext
  left_suffix h := by
    obtain ⟨⟨x, r⟩, hnext, heq⟩ := Option.map_eq_some_iff.mp h
    cases heq
    exact R.left_suffix hnext

/-- What is taken off the input does not depend on the form of the messages. -/
theorem next_map {ν : Type*} (g : μ → ν) (r : ρ) :
    (R.map g).next r = (R.next r).map fun p => (p.1.map g, p.2) := rfl

/-- **The messages in another form** are those of the reader, each put in that form. -/
theorem messages_map {ν : Type*} (g : μ → ν) (r : ρ) :
    (R.map g).messages r = (R.messages r).map fun p => (g p.1, p.2) := by
  induction hn : R.rank r using Nat.strongRecOn generalizing r with
  | ind n ih =>
      cases h : R.next r with
      | none =>
          have hmap : (R.map g).next r = none := by rw [next_map, h, Option.map_none]
          rw [messages_of_none h, messages_of_none hmap, List.map_nil]
      | some p =>
          obtain ⟨x, r'⟩ := p
          have hrec := ih _ (hn ▸ R.rank_lt h) r' rfl
          have hmap : (R.map g).next r = some (x.map g, r') := by
            rw [next_map, h, Option.map_some]
          cases x with
          | none => rw [messages_of_skip h, messages_of_skip hmap, hrec]
          | some m => rw [messages_of_message h, messages_of_message hmap, hrec, List.map_cons]

end Reader

/-! ## Outcomes -/

section Outcomes

variable {α μ ω : Type*} (f : α → μ → α × ω) (escapes : ω → Bool)

/-- **The outcomes of a callback** on messages one after another, up to the first that escapes. -/
def outcomes : α → List μ → List ω
  | _, [] => []
  | a, m :: ms =>
      (f a m).2 :: if escapes (f a m).2 then [] else outcomes (f a m).1 ms

variable {f escapes}

/-- What escapes ends the run. -/
theorem outcomes_of_escapes {a : α} {m : μ} (h : escapes (f a m).2 = true) (ms : List μ) :
    outcomes f escapes a (m :: ms) = [(f a m).2] := by
  rw [outcomes, if_pos h]

/-- What does not escape lets the next message follow. -/
theorem outcomes_of_not_escapes {a : α} {m : μ} (h : escapes (f a m).2 = false) (ms : List μ) :
    outcomes f escapes a (m :: ms) = (f a m).2 :: outcomes f escapes (f a m).1 ms := by
  rw [outcomes, if_neg (by simp [h])]

/-- There are no more outcomes than messages. -/
theorem length_outcomes_le (a : α) (ms : List μ) :
    (outcomes f escapes a ms).length ≤ ms.length := by
  induction ms generalizing a with
  | nil => exact le_rfl
  | cons m ms ih =>
      rw [outcomes]
      split
      · simp
      · simpa using ih (f a m).1

/-- Unless one escapes, every message has an outcome. -/
theorem length_outcomes {a : α} {ms : List μ} (h : ∀ o ∈ outcomes f escapes a ms, escapes o = false) :
    (outcomes f escapes a ms).length = ms.length := by
  induction ms generalizing a with
  | nil => rfl
  | cons m ms ih =>
      have hm : escapes (f a m).2 = false := h _ (by rw [outcomes]; exact List.mem_cons_self)
      rw [outcomes_of_not_escapes hm] at h ⊢
      rw [List.length_cons, List.length_cons, ih fun o ho => h o (List.mem_cons_of_mem _ ho)]

/-- Only the last outcome can escape. -/
theorem succ_eq_length_of_escapes {a : α} {ms : List μ} {i : ℕ} {o : ω}
    (hi : (outcomes f escapes a ms)[i]? = some o) (ho : escapes o = true) :
    i + 1 = (outcomes f escapes a ms).length := by
  induction ms generalizing a i with
  | nil => cases hi
  | cons m ms ih =>
      by_cases hm : escapes (f a m).2 = true
      · rw [outcomes_of_escapes hm] at hi ⊢
        cases i with
        | zero => rfl
        | succ i => cases hi
      · rw [outcomes_of_not_escapes (by simpa using hm)] at hi ⊢
        cases i with
        | zero =>
            obtain rfl : (f a m).2 = o := by simpa using hi
            exact absurd ho hm
        | succ i => rw [List.length_cons, ih hi]

end Outcomes

/-! ## Loops that dispatch -/

/-- What is seen of a program that passes messages to a callback. -/
structure View (S ρ μ α : Type*) where
  /-- Its input. -/
  reading : S → ρ
  /-- The state of the callback. -/
  state : S → α
  /-- The messages passed on so far. -/
  passed : S → List μ
  /-- A failure has left the program. -/
  escaped : S → Prop

variable {S ρ μ α ω β : Type*}

/-- The program goes on with these values. -/
structure View.Shows (V : View S ρ μ α) (t : S) (r : ρ) (a : α) (passed : List μ) : Prop where
  going : ¬ V.escaped t
  reading : V.reading t = r
  state : V.state t = a
  passed : V.passed t = passed

/-- **A turn of the loop passes one message on.** Where nothing can be taken off the input, the loop
leaves if `Ends` holds of the input, and never gets out except with a failure otherwise. -/
structure Dispatches (R : Reader ρ μ β) (f : α → μ → α × ω) (escapes : ω → Bool)
    (V : View S ρ μ α) (Ends : ρ → Prop) (body : S → Turn S) : Prop where
  skip : ∀ s r, ¬ V.escaped s → R.next (V.reading s) = some (none, r) →
    ∃ t, body s = .again t ∧ V.Shows t r (V.state s) (V.passed s)
  message : ∀ s m r, ¬ V.escaped s → R.next (V.reading s) = some (some m, r) →
    escapes (f (V.state s) m).2 = false →
    ∃ t, body s = .again t ∧ V.Shows t r (f (V.state s) m).1 (V.passed s ++ [m])
  escape : ∀ s m r, ¬ V.escaped s → R.next (V.reading s) = some (some m, r) →
    escapes (f (V.state s) m).2 = true →
    ∃ t, body s = .leave t ∧ V.escaped t ∧ V.passed t = V.passed s ++ [m]
  leave : ∀ s, ¬ V.escaped s → R.next (V.reading s) = none → Ends (V.reading s) →
    ∃ t, body s = .leave t ∧ ¬ V.escaped t ∧ V.passed t = V.passed s ∧
      R.left (V.reading t) <:+ R.left (V.reading s)
  stuck : ∀ s t, ¬ V.escaped s → R.next (V.reading s) = none → ¬ Ends (V.reading s) →
    Exits body s t → V.escaped t

/-- From `s` to `t` the program has dealt with what it has taken off the input: a message is passed
on, and a failure leaves the program exactly if the outcome escapes. -/
def View.Serves (V : View S ρ μ α) (f : α → μ → α × ω) (escapes : ω → Bool) (s t : S) :
    Option μ → Prop
  | none => ¬ V.escaped t ∧ V.state t = V.state s ∧ V.passed t = V.passed s
  | some m => (V.escaped t ↔ escapes (f (V.state s) m).2 = true) ∧
      V.state t = (f (V.state s) m).1 ∧ V.passed t = V.passed s ++ [m]

/-- A loop that deals with whatever can be taken off the input and leaves after a failure. -/
theorem Dispatches.of_serves {R : Reader ρ μ β} {f : α → μ → α × ω} {escapes : ω → Bool}
    {V : View S ρ μ α} {Ends : ρ → Prop} {body : S → Turn S}
    (hserves : ∀ s x r, ¬ V.escaped s → R.next (V.reading s) = some (x, r) →
      ∃ t, V.Serves f escapes s t x ∧ (V.escaped t → body s = .leave t) ∧
        (¬ V.escaped t → body s = .again t ∧ V.reading t = r))
    (hleave : ∀ s, ¬ V.escaped s → R.next (V.reading s) = none → Ends (V.reading s) →
      ∃ t, body s = .leave t ∧ ¬ V.escaped t ∧ V.passed t = V.passed s ∧
        R.left (V.reading t) <:+ R.left (V.reading s))
    (hstuck : ∀ s t, ¬ V.escaped s → R.next (V.reading s) = none → ¬ Ends (V.reading s) →
      Exits body s t → V.escaped t) : Dispatches R f escapes V Ends body where
  skip s r hs hnext := by
    obtain ⟨t, ⟨hgoing, hstate, hpassed⟩, -, hagain⟩ := hserves s none r hs hnext
    obtain ⟨hbody, hreading⟩ := hagain hgoing
    exact ⟨t, hbody, hgoing, hreading, hstate, hpassed⟩
  message s m r hs hnext hrun := by
    obtain ⟨t, ⟨hescaped, hstate, hpassed⟩, -, hagain⟩ := hserves s (some m) r hs hnext
    have hgoing : ¬ V.escaped t := by simp [hescaped, hrun]
    obtain ⟨hbody, hreading⟩ := hagain hgoing
    exact ⟨t, hbody, hgoing, hreading, hstate, hpassed⟩
  escape s m r hs hnext hrun := by
    obtain ⟨t, ⟨hescaped, -, hpassed⟩, hbody, -⟩ := hserves s (some m) r hs hnext
    exact ⟨t, hbody (hescaped.mpr hrun), hescaped.mpr hrun, hpassed⟩
  leave := hleave
  stuck := hstuck

/-- What becomes of the messages of `r`, with the callback in state `a` and the messages `earlier`
passed on before: the final states are those of which `final` holds. -/
inductive Dispatched (R : Reader ρ μ β) (f : α → μ → α × ω) (escapes : ω → Bool)
    (V : View S ρ μ α) (Ends : ρ → Prop) (r : ρ) (a : α) (earlier : List μ) (final : S → Prop) :
    Prop where
  /-- All messages are passed on. -/
  | all : (∀ o ∈ outcomes f escapes a ((R.messages r).map Prod.fst), escapes o = false) →
      Ends (R.last r) → (∃ t, final t) →
      (∀ t, final t → ¬ V.escaped t ∧ V.passed t = earlier ++ (R.messages r).map Prod.fst ∧
        R.left (V.reading t) <:+ R.left (R.last r)) → Dispatched R f escapes V Ends r a earlier final
  /-- An outcome escapes. -/
  | escape : (∃ o ∈ outcomes f escapes a ((R.messages r).map Prod.fst), escapes o = true) →
      (∃ t, final t) →
      (∀ t, final t → V.escaped t ∧ V.passed t = earlier ++ ((R.messages r).map Prod.fst).take
        (outcomes f escapes a ((R.messages r).map Prod.fst)).length) →
      Dispatched R f escapes V Ends r a earlier final
  /-- The program does not come to an end of its own. -/
  | stuck : (∀ o ∈ outcomes f escapes a ((R.messages r).map Prod.fst), escapes o = false) →
      ¬ Ends (R.last r) → (∀ t, final t → V.escaped t) →
      Dispatched R f escapes V Ends r a earlier final

variable {R : Reader ρ μ β} {f : α → μ → α × ω} {escapes : ω → Bool} {V : View S ρ μ α}
  {Ends : ρ → Prop} {body : S → Turn S}

/-- Where nothing can be taken off the input, only its end matters. -/
theorem Dispatched.of_none {r : ρ} {a : α} {earlier : List μ} {final : S → Prop}
    (hnext : R.next r = none) (hex : Ends r → ∃ t, final t)
    (hends : Ends r → ∀ t, final t → ¬ V.escaped t ∧ V.passed t = earlier ∧
      R.left (V.reading t) <:+ R.left r)
    (hstuck : ¬ Ends r → ∀ t, final t → V.escaped t) :
    Dispatched R f escapes V Ends r a earlier final := by
  have hmessages := Reader.messages_of_none hnext
  have hlast := Reader.last_of_none hnext
  have hnorun : ∀ o ∈ outcomes f escapes a ((R.messages r).map Prod.fst), escapes o = false := by
    rw [hmessages]
    simp [outcomes]
  by_cases he : Ends r
  · refine .all hnorun (by rwa [hlast]) (hex he) fun t ht => ?_
    obtain ⟨hgoing, hpassed, hleft⟩ := hends he t ht
    rw [hmessages, hlast, List.map_nil, List.append_nil]
    exact ⟨hgoing, hpassed, hleft⟩
  · exact .stuck hnorun (by rwa [hlast]) (hstuck he)

/-- What is passed over does not matter. -/
theorem Dispatched.skip {r r' : ρ} {a : α} {earlier : List μ} {final : S → Prop}
    (hnext : R.next r = some (none, r'))
    (h : Dispatched R f escapes V Ends r' a earlier final) :
    Dispatched R f escapes V Ends r a earlier final := by
  have hmessages := Reader.messages_of_skip hnext
  have hlast := Reader.last_of_some hnext
  rcases h with ⟨hall, hends, hex, hfinal⟩ | ⟨hesc, hex, hfinal⟩ | ⟨hall, hends, hfinal⟩
  · exact .all (by rwa [hmessages]) (by rwa [hlast]) hex (by rwa [hmessages, hlast])
  · exact .escape (by rwa [hmessages]) hex (by rwa [hmessages])
  · exact .stuck (by rwa [hmessages]) (by rwa [hlast]) hfinal

/-- A message whose outcome does not escape is passed on first. -/
theorem Dispatched.message {r r' : ρ} {m : μ} {a : α} {earlier : List μ} {final : S → Prop}
    (hnext : R.next r = some (some m, r')) (hm : escapes (f a m).2 = false)
    (h : Dispatched R f escapes V Ends r' (f a m).1 (earlier ++ [m]) final) :
    Dispatched R f escapes V Ends r a earlier final := by
  have hmessages := Reader.messages_of_message hnext
  have hlast := Reader.last_of_some hnext
  have houtcomes : outcomes f escapes a ((R.messages r).map Prod.fst)
      = (f a m).2 :: outcomes f escapes (f a m).1 ((R.messages r').map Prod.fst) := by
    rw [hmessages, List.map_cons, outcomes_of_not_escapes hm]
  rcases h with ⟨hall, hends, hex, hfinal⟩ | ⟨⟨o, ho, hesc⟩, hex, hfinal⟩ | ⟨hall, hends, hfinal⟩
  · refine .all ?_ (by rwa [hlast]) hex fun t ht => ?_
    · rw [houtcomes]
      exact List.forall_mem_cons.mpr ⟨hm, hall⟩
    · obtain ⟨hgoing, hpassed, hleft⟩ := hfinal t ht
      rw [hmessages, hlast, hpassed, List.map_cons, List.append_assoc]
      exact ⟨hgoing, rfl, hleft⟩
  · refine .escape ⟨o, by rw [houtcomes]; exact List.mem_cons_of_mem _ ho, hesc⟩ hex fun t ht => ?_
    obtain ⟨hescaped, hpassed⟩ := hfinal t ht
    rw [houtcomes, hmessages, hpassed, List.map_cons, List.append_assoc]
    exact ⟨hescaped, rfl⟩
  · refine .stuck ?_ (by rwa [hlast]) hfinal
    rw [houtcomes]
    exact List.forall_mem_cons.mpr ⟨hm, hall⟩

/-- The same final states, seen in another way. -/
theorem Dispatched.transfer {S' : Type*} {V' : View S' ρ μ α} {final : S → Prop}
    {final' : S' → Prop} {r : ρ} {a : α} {earlier : List μ}
    (hex : (∃ t, final t) → ∃ u, final' u)
    (hsame : ∀ u, final' u → ∃ t, final t ∧ (V'.escaped u ↔ V.escaped t) ∧
      V'.passed u = V.passed t ∧ R.left (V'.reading u) = R.left (V.reading t))
    (h : Dispatched R f escapes V Ends r a earlier final) :
    Dispatched R f escapes V' Ends r a earlier final' := by
  rcases h with ⟨hall, hends, hfin, hfinal⟩ | ⟨hesc, hfin, hfinal⟩ | ⟨hall, hends, hfinal⟩
  · refine .all hall hends (hex hfin) fun u hu => ?_
    obtain ⟨t, ht, hescaped, hpassed, hleft⟩ := hsame u hu
    rw [hescaped, hpassed, hleft]
    exact hfinal t ht
  · refine .escape hesc (hex hfin) fun u hu => ?_
    obtain ⟨t, ht, hescaped, hpassed, -⟩ := hsame u hu
    rw [hescaped, hpassed]
    exact hfinal t ht
  · refine .stuck hall hends fun u hu => ?_
    obtain ⟨t, ht, hescaped, -⟩ := hsame u hu
    exact hescaped.mpr (hfinal t ht)

/-- **A loop whose turns pass one message on passes them all on**, or ends with the first outcome
that escapes. -/
theorem Dispatches.dispatched (h : Dispatches R f escapes V Ends body) {s : S}
    (hs : ¬ V.escaped s) :
    Dispatched R f escapes V Ends (V.reading s) (V.state s) (V.passed s) (Exits body s) := by
  -- Induction on what is left to read: the loop turns exactly as the reader goes on.
  induction hn : R.rank (V.reading s) using Nat.strongRecOn generalizing s with
  | ind n ih =>
      have hlater {t : S} (hagain : body s = .again t) : Exits body s = Exits body t := by
        funext u
        exact propext (exits_again_iff hagain)
      cases hnext : R.next (V.reading s) with
      | none =>
          -- nothing to take: the loop is left, or it is stuck
          refine .of_none hnext (fun hends => ?_) (fun hends u hu => ?_) fun hends t ht =>
            h.stuck s t hs hnext hends ht
          · obtain ⟨t, hleave, -⟩ := h.leave s hs hnext hends
            exact ⟨t, .leave hleave⟩
          · obtain ⟨t, hleave, ht⟩ := h.leave s hs hnext hends
            obtain rfl := (exits_leave_iff hleave).mp hu
            exact ht
      | some p =>
          obtain ⟨x, r⟩ := p
          have hlt := hn ▸ R.rank_lt hnext
          cases x with
          | none =>
              -- something taken that is no message
              obtain ⟨t, hagain, ht⟩ := h.skip s r hs hnext
              have hrec := ih (R.rank (V.reading t)) (by rwa [ht.reading]) ht.going rfl
              rw [ht.reading, ht.state, ht.passed, ← hlater hagain] at hrec
              exact hrec.skip hnext
          | some m =>
              by_cases hm : escapes (f (V.state s) m).2 = true
              · -- the outcome escapes, and the loop ends here
                obtain ⟨t, hleave, hescaped, hpassed⟩ := h.escape s m r hs hnext hm
                have houtcomes : outcomes f escapes (V.state s)
                    ((R.messages (V.reading s)).map Prod.fst) = [(f (V.state s) m).2] := by
                  rw [Reader.messages_of_message hnext, List.map_cons, outcomes_of_escapes hm]
                refine .escape ?_ ⟨t, .leave hleave⟩ fun u hu => ?_
                · rw [houtcomes]
                  exact ⟨_, List.mem_singleton_self _, hm⟩
                · obtain rfl := (exits_leave_iff hleave).mp hu
                  rw [houtcomes, Reader.messages_of_message hnext]
                  exact ⟨hescaped, hpassed⟩
              · have hm' : escapes (f (V.state s) m).2 = false := by simpa using hm
                obtain ⟨t, hagain, ht⟩ := h.message s m r hs hnext hm'
                have hrec := ih (R.rank (V.reading t)) (by rwa [ht.reading]) ht.going rfl
                rw [ht.reading, ht.state, ht.passed, ← hlater hagain] at hrec
                exact hrec.message hnext hm'

/-- Where nothing has been passed on yet, no message is among those passed on. -/
theorem not_passed (passed : List μ) {ms : List (μ × ρ)} (hms : ms ≠ []) (j : ℕ) :
    ¬ passed ++ (ms.take (j + 1)).map Prod.fst <+: passed := by
  intro hfront
  have hle := hfront.length_le
  have hpos := List.length_pos_iff.mpr hms
  rw [List.length_append, List.length_map, List.length_take] at hle
  omega

/-- **Which messages are passed on** during the loop: those with an outcome. -/
theorem Dispatches.visits_iff (h : Dispatches R f escapes V Ends body) {s : S}
    (hs : ¬ V.escaped s) {j : ℕ} (hj : j < (R.messages (V.reading s)).length) :
    (∃ u, Visits body s u ∧
        V.passed s ++ ((R.messages (V.reading s)).take (j + 1)).map Prod.fst <+: V.passed u) ↔
      j < (outcomes f escapes (V.state s) ((R.messages (V.reading s)).map Prod.fst)).length := by
  -- Induction on what is left to read, for every `j` at once.
  induction hn : R.rank (V.reading s) using Nat.strongRecOn generalizing s j with
  | ind n ih =>
      have hne : R.messages (V.reading s) ≠ [] := List.ne_nil_of_length_pos (by omega)
      have hnotyet := not_passed (V.passed s) hne j
      cases hnext : R.next (V.reading s) with
      | none =>
          rw [Reader.messages_of_none hnext] at hj
          exact absurd hj (Nat.not_lt_zero _)
      | some p =>
          obtain ⟨x, r⟩ := p
          have hlt := hn ▸ R.rank_lt hnext
          cases x with
          | none =>
              -- nothing is handed over, so the next state has the same messages
              obtain ⟨t, hagain, ht⟩ := h.skip s r hs hnext
              rw [exists_visits_again_iff hagain hnotyet]
              have hmessages := Reader.messages_of_skip hnext
              rw [hmessages] at hj ⊢
              have hrec := ih (R.rank (V.reading t)) (by rwa [ht.reading]) ht.going
                (by rwa [ht.reading]) rfl
              rwa [ht.reading, ht.state, ht.passed] at hrec
          | some m =>
              have hmessages := Reader.messages_of_message hnext
              by_cases hm : escapes (f (V.state s) m).2 = true
              · -- the loop ends with this message
                obtain ⟨t, hleave, -, hpassed⟩ := h.escape s m r hs hnext hm
                rw [exists_visits_leave_iff hleave hnotyet, hpassed, hmessages, List.map_cons,
                  outcomes_of_escapes hm, List.length_singleton, List.take_succ_cons, List.map_cons,
                  List.prefix_append_right_inj]
                constructor
                · intro hfront
                  have hle := hfront.length_le
                  rw [hmessages, List.length_cons] at hj
                  rw [List.length_cons, List.length_map, List.length_take,
                    List.length_singleton] at hle
                  omega
                · intro hzero
                  obtain rfl : j = 0 := by omega
                  exact List.prefix_refl _
              -- the loop goes on; the first message is passed on, and the others are those of the
              -- next state
              · have hm' : escapes (f (V.state s) m).2 = false := by simpa using hm
                obtain ⟨t, hagain, ht⟩ := h.message s m r hs hnext hm'
                rw [exists_visits_again_iff hagain hnotyet, hmessages, List.map_cons,
                  outcomes_of_not_escapes hm', List.length_cons]
                cases j with
                | zero =>
                    refine iff_of_true ⟨t, .inl .refl, ?_⟩ (Nat.succ_pos _)
                    rw [ht.passed]
                    exact List.prefix_refl _
                | succ j =>
                    rw [hmessages, List.length_cons, Nat.succ_lt_succ_iff] at hj
                    have hrec := ih (R.rank (V.reading t)) (by rwa [ht.reading]) ht.going
                      (by rwa [ht.reading]) rfl
                    rw [ht.reading, ht.state, ht.passed, List.append_assoc] at hrec
                    rw [Nat.add_lt_add_iff_right, List.take_succ_cons, List.map_cons]
                    exact hrec

end NetworkLib
