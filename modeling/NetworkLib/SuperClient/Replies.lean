import NetworkLib.SuperClient.Pairing

/-! # Replies and expects

The server answers what a scenario sends in order and in time. There is one slot for the replies:
one that comes in before its predecessor has been expected takes its place, and there is one flag
for both. So the schedule of the handler does not matter exactly if the steps are unmistakable
(`repliesMatched_iff`). -/

namespace NetworkLib.ScenarioEngine

/-- `Execute` reports a timeout or a mismatch. -/
def State.Failed (s : State) : Prop := s.report = some .timeout ∨ s.report = some .mismatch

instance (s : State) : Decidable s.Failed := inferInstanceAs (Decidable (_ ∨ _))

/-- Whatever the schedule, `Execute` reports no timeout and no mismatch. -/
def RepliesMatched (steps : List Step) : Prop :=
  ∀ es, Trace.Always step InTime (start steps) es → ¬ (Trace.run step (start steps) es).Failed

variable {front back tail body : List Command} {data text : Bytes} {s : State}

/-! ## The invariant of a run -/

theorem onMessage_envelope (slot : Slot) (text : Bytes) :
    (onMessage slot (envelope text)).1 = { receivedData := text, messageReceived := true } := rfl

/-- The script thread has gone through `front`, and has `back` before it. The texts that are not
expected yet have come in, up to the one in the slot if the flag is set, or are on their way; and
after a send there is something to wait for. -/
structure Between (tail front back : List Command) (s : State) : Prop where
  todo : s.todo = back ++ tail
  connected : s.connected = true
  running : s.report = none
  pending : ∃ seen coming, unexpected front = seen ++ coming ∧
    s.onTheWay.map Reply.envelope = coming.map envelope ∧
    (s.slot.messageReceived = true → ∃ seen', seen = seen' ++ [s.slot.receivedData])
  inTime : ∀ reply ∈ s.onTheWay, reply.sentAt ≤ s.now ∧ s.now < reply.sentAt + waitTime
  waiting : ∀ deadline ∈ s.deadline, (∃ data rest, back = .expect data :: rest) ∧
    ∀ reply ∈ s.onTheWay, reply.sentAt + waitTime ≤ deadline
  alive : s.slot.messageReceived = true ∨ s.onTheWay ≠ [] ∨ front = [] ∨
    ∃ (front' : List Command) (data : Bytes), front = front' ++ [.expect data]

/-- A reply that comes between two commands. -/
theorem Between.callback (h : Between tail front back s) : Between tail front back s.callback := by
  obtain ⟨seen, coming, hsplit, hcoming, -⟩ := h.pending
  unfold State.callback
  split
  · exact h
  · next reply rest hway =>
      rw [hway, List.map_cons] at hcoming
      -- what comes in is the first of the texts that are on their way
      obtain ⟨text, coming', rfl, henv, hrest⟩ := List.map_eq_cons_iff.mp hcoming.symm
      have hsub : ∀ r ∈ rest, r ∈ s.onTheWay := by
        intro r hr
        rw [hway]
        exact List.mem_cons_of_mem _ hr
      rw [← henv, onMessage_envelope]
      refine ⟨h.todo, h.connected, h.running, ⟨seen ++ [text], coming', ?_, hrest.symm, ?_⟩, ?_, ?_,
        .inl rfl⟩
      · rw [hsplit, List.append_assoc, List.singleton_append]
      · intro _
        exact ⟨seen, rfl⟩
      · intro r hr
        exact h.inTime r (hsub r hr)
      · intro deadline hdeadline
        obtain ⟨hback, hall⟩ := h.waiting deadline hdeadline
        exact ⟨hback, fun r hr => hall r (hsub r hr)⟩

/-- Time that passes between two commands. -/
theorem Between.elapse (h : Between tail front back s) {duration : ℕ}
    (hin : InTime s (.elapse duration)) :
    Between tail front back (step s (.elapse duration)) := by
  refine ⟨h.todo, h.connected, h.running, h.pending, ?_, h.waiting, h.alive⟩
  intro reply hreply
  exact ⟨Nat.le_add_right_of_le (h.inTime reply hreply).1, hin reply hreply⟩

/-- The next command sends. -/
theorem Between.send (hpaired : Paired front) (h : Between tail front (.send data :: back) s) :
    Between tail (front ++ [.send data]) back { s.send data with todo := back ++ tail } := by
  obtain ⟨seen, coming, hsplit, hcoming, hslot⟩ := h.pending
  -- it does not wait while there is a send before it
  have hdeadline : s.deadline = none := by
    cases hd : s.deadline with
    | none => rfl
    | some deadline =>
        obtain ⟨⟨_, _, hback⟩, -⟩ := h.waiting deadline hd
        cases hback
  rw [State.send, if_pos h.connected]
  refine ⟨rfl, h.connected, h.running, ⟨seen, coming ++ [data], ?_, ?_, hslot⟩, ?_, ?_, ?_⟩
  · rw [unexpected_send hpaired, hsplit, List.append_assoc]
  · rw [List.map_append, List.map_append, hcoming]
    rfl
  · intro reply hreply
    rcases List.mem_append.mp hreply with hreply | hreply
    · exact h.inTime reply hreply
    · rw [List.mem_singleton.mp hreply]
      exact ⟨Nat.le_refl _, Nat.lt_add_of_pos_right (by decide)⟩
  · intro deadline hd
    rw [hdeadline] at hd
    cases hd
  · exact .inr (.inl (List.append_ne_nil_of_right_ne_nil _ (List.cons_ne_nil _ _)))

/-- **An expect**: it finds its text, or waits for a reply that is on its way. -/
theorem Between.expect (hpaired : Paired (front ++ .expect data :: back))
    (hgood : Unmistakable (front ++ .expect data :: back))
    (h : Between tail front (.expect data :: back) s) :
    Between tail front (.expect data :: back) (s.expect data (back ++ tail)) ∨
      Between tail (front ++ [.expect data]) back (s.expect data (back ++ tail)) := by
  obtain ⟨seen, coming, hsplit, hcoming, hslot⟩ := h.pending
  rw [State.expect]
  by_cases hflag : s.slot.messageReceived = true
  · rw [if_pos hflag]
    obtain ⟨seen', rfl⟩ := hslot hflag
    have hmem : s.slot.receivedData ∈ unexpected front := by
      rw [hsplit]
      exact List.mem_append_left _ List.mem_concat_self
    have hfound : search data s.slot.receivedData ≠ none := by
      rw [Ne, search_eq_none_iff, not_not]
      exact hgood.contained front data back rfl _ hmem
    rw [if_neg hfound]
    refine .inr ⟨rfl, h.connected, h.running, ?_, h.inTime, ?_, .inr (.inr (.inr ⟨front, data, rfl⟩))⟩
    · -- the first text is no longer pending, whatever was found in its place
      rw [unexpected_expect hpaired] at hsplit
      cases hseen : seen' ++ [s.slot.receivedData] with
      | nil => exact absurd hseen (List.append_ne_nil_of_right_ne_nil _ (List.cons_ne_nil _ _))
      | cons first seen'' =>
          rw [hseen, List.cons_append] at hsplit
          refine ⟨seen'', coming, (List.cons.inj hsplit).2, hcoming, ?_⟩
          intro hfalse
          cases hfalse
    · intro deadline hdeadline
      cases hdeadline
  · rw [if_neg hflag]
    have hway : s.onTheWay ≠ [] := by
      rcases h.alive with halive | halive | rfl | ⟨front', data', rfl⟩
      · exact absurd halive hflag
      · exact halive
      · -- the first step is no expect
        cases hpaired.matched [] data back rfl
      · exact absurd (List.append_assoc _ _ _) (hgood.apart front' data' data back)
    left
    split
    · next hdeadline =>
        refine ⟨h.todo, h.connected, h.running, h.pending, h.inTime, ?_, h.alive⟩
        intro deadline hd
        cases hd
        refine ⟨⟨data, back, rfl⟩, ?_⟩
        intro reply hreply
        exact Nat.add_le_add_right (h.inTime reply hreply).1 _
    · next deadline hdeadline =>
        -- the reply comes in before the wait is over
        obtain ⟨reply, hreply⟩ := List.exists_mem_of_ne_nil _ hway
        have hle := (h.waiting deadline hdeadline).2 reply hreply
        have hlt := (h.inTime reply hreply).2
        rw [if_neg (by omega)]
        exact h

/-- Where a run can be, when the scenario connects, goes through `body`, and disconnects or ends. -/
inductive Kept (body tail : List Command) (s : State) : Prop where
  | before (htodo : s.todo = .connect :: (body ++ tail)) (hidle : s = { todo := s.todo, now := s.now })
  | between {front back : List Command} (hbody : body = front ++ back)
      (h : Between tail front back s)
  | disconnected (htodo : s.todo = []) (hreport : s.report = none)
  | returned (h : s.report = some .passed ∨ s.report = some .notConnected)

/-- A scenario that is kept up has not failed. -/
theorem Kept.not_failed (h : Kept body tail s) : ¬ s.Failed := by
  intro hfailed
  have hnone : s.report ≠ none := by
    rcases hfailed with hf | hf <;> rw [hf] <;> exact Option.some_ne_none _
  cases h with
  | before _ hidle => exact hnone (congrArg State.report hidle)
  | between _ h => exact hnone h.running
  | disconnected _ hreport => exact hnone hreport
  | returned h => rcases h with h | h <;> rcases hfailed with hf | hf <;> rw [h] at hf <;> cases hf

/-- **The script keeps it up**: its next command sends, waits, or finds what it expects. -/
theorem Kept.script (hpaired : Paired body) (hgood : Unmistakable body)
    (htail : tail = [] ∨ tail = [.disconnect]) (h : Kept body tail s) (hrunning : s.report = none)
    (connects : Bool) : Kept body tail (s.script connects) := by
  -- One case for each place the script may be at.
  cases h with
  | before htodo hidle =>
      rw [State.script, htodo]
      simp only
      split
      -- connected: the first step of the body comes next
      · refine .between (show body = [] ++ body from rfl) ?_
        rw [hidle]
        refine ⟨rfl, rfl, rfl, ⟨[], [], rfl, rfl, ?_⟩, ?_, ?_, .inr (.inr (.inl rfl))⟩
        · intro hflag
          cases hflag
        · intro reply hreply
          exact absurd hreply List.not_mem_nil
        · intro deadline hdeadline
          cases hdeadline
      · exact .returned (.inr rfl)
  | @between front back hbody h =>
      subst hbody
      cases back with
      | nil =>
          -- the body is done
          rcases htail with rfl | rfl
          -- the `send` of a pair
          · rw [State.script, h.todo]
            exact .returned (.inl rfl)
          · rw [State.script, h.todo]
            exact .disconnected rfl h.running
      | cons c back =>
          have hassoc : front ++ c :: back = front ++ [c] ++ back := (List.append_cons front c back)
          rcases hpaired.plain c (List.mem_append_right _ List.mem_cons_self) with
            ⟨data, rfl⟩ | ⟨data, rfl⟩
          · rw [State.script, h.todo]
            exact .between hassoc (h.send hpaired.left)
          · rw [State.script, h.todo]
            rcases h.expect hpaired hgood with hexpect | hexpect
            · exact .between rfl hexpect
            · exact .between hassoc hexpect
  | disconnected htodo _ =>
      rw [State.script, htodo]
      exact .returned (.inl rfl)
  | returned h => rcases h with h | h <;> rw [h] at hrunning <;> cases hrunning

/-- So does a reply. -/
theorem Kept.callback (h : Kept body tail s) : Kept body tail s.callback := by
  have hrest : s.callback.todo = s.todo ∧ s.callback.report = s.report := by
    unfold State.callback
    split <;> exact ⟨rfl, rfl⟩
  cases h with
  | before htodo hidle =>
      have hnone : s.callback = s := by
        rw [hidle]
        rfl
      rw [hnone]
      exact .before htodo hidle
  | between hbody h => exact .between hbody h.callback
  | disconnected htodo hreport =>
      exact .disconnected (hrest.1.trans htodo) (hrest.2.trans hreport)
  | returned h =>
      refine .returned ?_
      rw [hrest.2]
      exact h

/-- So does time that passes, within the limit. -/
theorem Kept.elapse (h : Kept body tail s) {duration : ℕ} (hin : InTime s (.elapse duration)) :
    Kept body tail (step s (.elapse duration)) := by
  cases h with
  | before htodo hidle =>
      refine .before htodo ?_
      rw [hidle]
      rfl
  | between hbody h => exact .between hbody (h.elapse hin)
  | disconnected htodo hreport => exact .disconnected htodo hreport
  | returned h => exact .returned h

/-- **One step** of a scenario that is unmistakable. -/
theorem Kept.step (hpaired : Paired body) (hgood : Unmistakable body)
    (htail : tail = [] ∨ tail = [.disconnect]) (h : Kept body tail s) {e : Event}
    (hin : InTime s e) : Kept body tail (step s e) := by
  cases e with
  | script connects =>
      rw [ScenarioEngine.step]
      split
      · exact h
      · next hreport =>
          exact h.script hpaired hgood htail (Option.not_isSome_iff_eq_none.mp hreport) connects
  | callback =>
      rw [ScenarioEngine.step]
      split
      · exact h
      · exact h.callback
  | elapse duration => exact h.elapse hin

/-! ## Schedules that mislead -/

/-- The schedule that hands every reply over when its expect comes. -/
def lazily (cs : List Command) : List Event :=
  cs.flatMap fun c => match c with
    | .expect _ => [.callback, .script true]
    | _ => [.script true]

/-- The replies to texts that have been sent at the beginning. -/
def replies (texts : List Bytes) : List Reply := texts.map fun text => ⟨envelope text, 0⟩

/-- The state that the schedule leads to. -/
def reached (front back : List Command) (receivedData : Bytes) : State where
  todo := back
  connected := true
  onTheWay := replies (unexpected front)
  slot := { receivedData }

/-- Steps that take no time are always in time. -/
theorem always_inTime {es : List Event} (h : ∀ e ∈ es, ∀ duration, e ≠ .elapse duration) (s : State) :
    Trace.Always step InTime s es := by
  induction es generalizing s with
  | nil => trivial
  | cons e es ih =>
      refine ⟨?_, ih (fun e' he' => h e' (List.mem_cons_of_mem _ he')) _⟩
      cases e with
      | script connects => trivial
      | callback => trivial
      | elapse duration => exact absurd rfl (h _ List.mem_cons_self duration)

/-- No time passes in a lazy schedule. -/
theorem ne_elapse_of_mem_lazily {cs : List Command} {e : Event} (he : e ∈ lazily cs) (duration : ℕ) :
    e ≠ .elapse duration := by
  rintro rfl
  obtain ⟨c, -, hc⟩ := List.mem_flatMap.mp he
  cases c <;> simp at hc

/-- Every expect finds its own reply. -/
theorem run_lazily (hpaired : Paired front) (back : List Command) :
    ∃ receivedData, Trace.run step (reached [] (front ++ back) []) (lazily front)
      = reached front back receivedData := by
  induction front using List.reverseRecOn generalizing back with
  | nil => exact ⟨[], rfl⟩
  | append_singleton front c ih =>
      obtain ⟨receivedData, hrun⟩ := ih hpaired.left (c :: back)
      rw [List.append_assoc, List.singleton_append]
      rcases hpaired.plain c List.mem_concat_self with ⟨data, rfl⟩ | ⟨data, rfl⟩
      · refine ⟨receivedData, ?_⟩
        have hlazily : lazily (front ++ [Command.send data]) = lazily front ++ [Event.script true] :=
          List.flatMap_append
        rw [hlazily, Trace.run_append, hrun, reached, reached, unexpected_send hpaired.left, replies,
          replies, List.map_append]
        rfl
      · refine ⟨data, ?_⟩
        have hlazily : lazily (front ++ [Command.expect data])
            = lazily front ++ [.callback, .script true] := List.flatMap_append
        have hfound : search data data ≠ none := by
          rw [Ne, search_eq_none_iff, not_not]
        rw [hlazily, Trace.run_append, hrun, reached, unexpected_expect hpaired]
        exact if_neg hfound

/-- Of several replies in a row the last one is left. -/
theorem run_callbacks {texts rest : List Bytes} (hrunning : s.report = none)
    (hway : s.onTheWay = replies (texts ++ text :: rest)) :
    Trace.run step s (List.replicate (texts.length + 1) .callback) = { s with
      onTheWay := replies rest
      slot := { receivedData := text, messageReceived := true } } := by
  have hcallback : ∀ (s : State) (first : Bytes) (later : List Bytes), s.report = none →
      s.onTheWay = replies (first :: later) →
      step s .callback = { s with
        onTheWay := replies later
        slot := { receivedData := first, messageReceived := true } } := by
    intro s first later hrunning hway
    have hreport : ¬ s.report.isSome = true := by
      rw [hrunning]
      exact Bool.false_ne_true
    rw [step, if_neg hreport, State.callback, hway]
    rfl
  induction texts generalizing s with
  | nil => exact hcallback s text rest hrunning hway
  | cons first texts ih =>
      rw [List.cons_append] at hway
      rw [List.length_cons, List.replicate_succ, Trace.run_cons, hcallback s first _ hrunning hway]
      exact ih hrunning rfl

/-- Nor while replies come. -/
theorem callbacks_ne_elapse {n : ℕ} {e : Event} (he : e ∈ List.replicate n .callback)
    (duration : ℕ) : e ≠ .elapse duration := by
  rw [(List.mem_replicate.mp he).2]
  exact Event.noConfusion

/-- The state with a reply in the slot. -/
def holding (back : List Command) (rest : List Bytes) (text : Bytes) : State where
  todo := back
  connected := true
  onTheWay := replies rest
  slot := { receivedData := text, messageReceived := true }

variable {rest : List Bytes}

/-- What was received does not hold the text expected. -/
theorem step_holding_mismatch (h : ¬ data <:+: text) :
    step (holding (.expect data :: back) rest text) (.script true)
      = { holding (.expect data :: back) rest text with report := some .mismatch } :=
  if_pos (search_eq_none_iff.mpr h)

/-- What was received holds it, and is kept. -/
theorem step_holding_match (h : data <:+: text) :
    step (holding (.expect data :: back) rest text) (.script true) = { holding back rest text with
      slot := { receivedData := text } } := by
  have hfound : search data text ≠ none := by
    rw [Ne, search_eq_none_iff, not_not]
    exact h
  exact if_neg hfound

/-- An expect without a reply waits to the end. -/
theorem run_wait {rest : List Command} (htodo : s.todo = .expect data :: rest)
    (hrunning : s.report = none) (hflag : s.slot.messageReceived = false) (hdeadline : s.deadline = none) :
    (Trace.run step s [.script true, .elapse waitTime, .script true]).report = some .timeout := by
  have hwait : step s (.script true) = { s with deadline := some (s.now + waitTime) } := by
    simp [step, State.script, State.expect, htodo, hrunning, hflag, hdeadline]
  rw [Trace.run_cons, hwait]
  simp [step, State.script, State.expect, htodo, hrunning, hflag]

section Misled

variable {steps : List Step} (hsteps : commands steps = .connect :: (body ++ tail))

include hsteps

/-- A schedule to just before an expect, when all replies up to a certain one have come in. -/
theorem exists_holding (hpaired : Paired body) (hbody : body = front ++ .expect data :: back)
    {texts : List Bytes} (hpending : unexpected front = texts ++ text :: rest) :
    ∃ es, Trace.Always step InTime (start steps) es ∧
      Trace.run step (start steps) es = holding (.expect data :: (back ++ tail)) rest text := by
  have hconnect : step (start steps) (.script true) = reached [] (body ++ tail) [] := by
    rw [start, hsteps]
    rfl
  rw [hbody] at hpaired
  obtain ⟨receivedData, hrun⟩ := run_lazily hpaired.left (.expect data :: (back ++ tail))
  refine ⟨.script true :: (lazily front ++ List.replicate (texts.length + 1) .callback), ?_, ?_⟩
  · refine ⟨trivial, always_inTime ?_ _⟩
    intro e he
    rcases List.mem_append.mp he with he | he
    · exact ne_elapse_of_mem_lazily he
    · exact callbacks_ne_elapse he
  · rw [Trace.run_cons, hconnect, hbody, List.append_assoc, List.cons_append, Trace.run_append, hrun,
      run_callbacks rfl (congrArg replies hpending)]
    rfl

/-- A reply that does not contain the text may take the place of the one that is expected. -/
theorem exists_mismatch (hpaired : Paired body) (hbody : body = front ++ .expect data :: back)
    (hmem : text ∈ unexpected front) (hnot : ¬ data <:+: text) :
    ∃ es, Trace.Always step InTime (start steps) es ∧ (Trace.run step (start steps) es).Failed := by
  obtain ⟨texts, rest, hpending⟩ := List.append_of_mem hmem
  obtain ⟨es, hes, hrun⟩ := exists_holding hsteps hpaired hbody hpending
  refine ⟨es ++ [.script true], ?_, ?_⟩
  · rw [Trace.always_append]
    exact ⟨hes, trivial, trivial⟩
  · rw [Trace.run_append, hrun, Trace.run_cons, step_holding_mismatch hnot]
    exact .inr rfl

/-- Of two expects in a row the second may have nothing left to wait for. -/
theorem exists_timeout {data' : Bytes} (hpaired : Paired body)
    (hbody : body = front ++ .expect data :: .expect data' :: back) :
    ∃ es, Trace.Always step InTime (start steps) es ∧ (Trace.run step (start steps) es).Failed := by
  -- all replies come in before the first of the two
  have hpending : unexpected front ≠ [] := by
    rw [hbody] at hpaired
    rw [unexpected_expect hpaired]
    exact List.cons_ne_nil _ _
  have hlast := (List.dropLast_append_getLast hpending).symm
  by_cases hfound : data <:+: (unexpected front).getLast hpending
  · obtain ⟨es, hes, hrun⟩ := exists_holding hsteps hpaired hbody hlast
    refine ⟨es ++ [.script true, .script true, .elapse waitTime, .script true], ?_, ?_⟩
    · rw [Trace.always_append, hrun]
      refine ⟨hes, trivial, trivial, ?_, trivial, trivial⟩
      rw [List.cons_append, step_holding_match hfound]
      intro reply hreply
      exact absurd hreply List.not_mem_nil
    · rw [Trace.run_append, hrun, Trace.run_cons, List.cons_append, step_holding_match hfound]
      exact .inl (run_wait rfl rfl rfl rfl)
  · exact exists_mismatch hsteps hpaired hbody (List.getLast_mem hpending) hfound

end Misled

/-- **When the schedule does not matter.** Let a scenario connect, go through sends and expects of
which the `i`-th expect comes after the `i`-th send and expects its text, and disconnect or end.
Against a server that echoes every envelope once, in order and in time, no schedule has `Execute`
report a timeout or a mismatch if and only if there is a send between any two expects, and every
text that is sent in front of an expect, from the expected one on, contains the expected one. -/
theorem repliesMatched_iff {steps : List Step} {body tail : List Command}
    (hsteps : commands steps = .connect :: (body ++ tail)) (hpaired : Paired body)
    (htail : tail = [] ∨ tail = [.disconnect]) :
    RepliesMatched steps ↔ Unmistakable body := by
  constructor
  · intro hall
    refine ⟨?_, ?_⟩
    · intro front data data' back hbody
      obtain ⟨es, hes, hfailed⟩ := exists_timeout hsteps hpaired hbody
      exact hall es hes hfailed
    · intro front data back hbody text htext
      by_contra hnot
      obtain ⟨es, hes, hfailed⟩ := exists_mismatch hsteps hpaired hbody htext hnot
      exact hall es hes hfailed
  · intro hgood es hes
    have hstart : Kept body tail (start steps) := .before hsteps rfl
    exact (Trace.run_invariant (fun _ _ h hin => h.step hpaired hgood htail hin) hstart hes).not_failed

/-- Two turns of a loop in which a text is sent and expected. -/
theorem repliesMatched_iff_loop :
    RepliesMatched [{ action := .connect },
      { action := .loop, count := 2, subSteps :=
          [{ action := .send, data := bytesOf "a" }, { action := .expect, data := bytesOf "a" }] },
      { action := .disconnect }] :=
  (repliesMatched_iff
    (show commands _ = .connect :: (oneByOne [bytesOf "a", bytesOf "a"] ++ [.disconnect]) from rfl)
    (paired_oneByOne _) (.inr rfl)).mpr (unmistakable_oneByOne _)

/-- Two texts are sent, and both replies come in before the first of them is expected. -/
theorem reply_overtaken :
    let steps : List Step := [{ action := .connect }, { action := .send, data := bytesOf "a" },
      { action := .send, data := bytesOf "b" }, { action := .expect, data := bytesOf "a" },
      { action := .expect, data := bytesOf "b" }]
    let es : List Event := [.script true, .script true, .script true, .callback, .callback, .script true]
    (∃ body, commands steps = .connect :: (body ++ []) ∧ Paired body) ∧
      Trace.Always step InTime (start steps) es ∧
      (Trace.run step (start steps) es).report = some .mismatch ∧ ¬ RepliesMatched steps := by
  intro steps es
  have hes : Trace.Always step InTime (start steps) es := ⟨trivial, trivial, trivial, trivial, trivial,
    trivial, trivial⟩
  have hreport : (Trace.run step (start steps) es).report = some .mismatch := by decide
  have hfirst : Paired ([Command.send (bytesOf "a"), .send (bytesOf "b")] ++
      [Command.expect (bytesOf "a")]) := ((paired_nil.send (bytesOf "a")).send (bytesOf "b")).expect rfl
  have hsecond : Paired ([Command.send (bytesOf "a"), .send (bytesOf "b"), .expect (bytesOf "a")] ++
      [Command.expect (bytesOf "b")]) := hfirst.expect rfl
  exact ⟨⟨_, rfl, hsecond⟩, hes, hreport, fun hall => hall es hes (.inr hreport)⟩

end NetworkLib.ScenarioEngine
