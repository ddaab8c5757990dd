import NetworkLib.Protocols.Http2.Senders

/-! # When the frames of several threads stay whole

As long as no event breaks a frame, the pieces in line are whole frames up to one header, whose
payload is the next send of its thread (`Framed`). An event that breaks one leaves a piece in line,
or about to be, that no later event can put right (`Ruined`). -/

namespace NetworkLib.Http2.Senders

open HeaderFormat

variable {σ : Type*} {os : Os} {pb : Protobuf} {s : Senders σ}

/-! ## What the events do to the pieces -/

/-- The threads other than the loop's send their own pieces. -/
def Owned (s : Senders σ) : Prop := ∀ k : ℕ, ∀ p ∈ s.unsent (some k), p.sender = some k

/-- The pieces in line are whole frames up to one header; its payload is the next send of its
thread, and every thread is about to send whole frames. -/
def Framed (s : Senders σ) : Prop :=
  ∃ o, format.scan none s.line = some o ∧ (∀ h, o = some h → h.sender ≠ none) ∧
    ∀ k : ℕ, format.scan (o.filter fun h => h.sender = some k) (s.unsent (some k)) = some none

/-- Some pieces are out of place, or will be. -/
def Ruined (s : Senders σ) : Prop :=
  format.scan none s.line = none ∨
    ∃ k : ℕ, ∃ p ∈ s.unsent (some k), p.isPayload = false ∧ ¬ format.IsMessage p.message

/-- Nothing happens to the pieces in line or to those the other threads have still to send. -/
def SamePieces (s s' : Senders σ) : Prop :=
  s'.line = s.line ∧ ∀ k : ℕ, s'.unsent (some k) = s.unsent (some k)

/-- **What an event does to the pieces**: it adds a call of the loop's thread behind the pieces
executed, gives another thread its next call, puts that thread's next piece at the end of the line,
or does nothing to them. -/
inductive PieceStep (pb : Protobuf) (s : Senders σ) : Event → Senders σ → Prop where
  | same {e : Event} {s' : Senders σ} (h : s.SamePieces s') (hb : ¬ s.Breaks pb e) :
      PieceStep pb s e s'
  | loopCall {c : FrameCall} (h : s.unsent none = []) :
      PieceStep pb s (.call none c)
        { s with unsent := Function.update s.unsent none (c.sends pb none) }
  | call {k : ℕ} {c : FrameCall} (h : s.unsent (some k) = []) :
      PieceStep pb s (.call (some k) c)
        { s with unsent := Function.update s.unsent (some k) (c.sends pb (some k)) }
  | send {k : ℕ} {p : Piece (Option ℕ)} {ps : List (Piece (Option ℕ))} {queue : SendQueue σ}
      (h : s.unsent (some k) = p :: ps) :
      PieceStep pb s (.send (some k))
        { s with
          unsent := Function.update s.unsent (some k) ps
          queue
          pendingTasks := s.pendingTasks ++ [p] }

variable (os pb) in
/-- **Every event is such a step.** -/
theorem pieceStep (s : Senders σ) (e : Event) : PieceStep pb s e (s.step os pb e) := by
  have hrefl : s.SamePieces s := ⟨rfl, fun _ => rfl⟩
  cases e with
  | call thread c =>
      rw [step, Senders.call]
      split
      · next h =>
          cases thread with
          | none => exact .loopCall h
          | some k => exact .call h
      · next h => exact .same hrefl fun hb => h hb.1
  | send thread =>
      rw [step, Senders.send]
      cases h : s.unsent thread with
      | nil =>
          refine .same hrefl fun hb => ?_
          cases thread with
          | none => exact hb
          | some k => exact hb.1 h
      | cons p ps =>
          cases thread with
          | none =>
              -- the piece stays where it is in line
              refine .same ⟨?_, fun k => rfl⟩ id
              simp [line, h]
          | some k => exact .send h
  | takeTasks =>
      refine .same ?_ id
      rw [step]
      split
      · rw [Senders.takeTasks]
        split
        · next h => exact ⟨by simp [line, h], fun _ => rfl⟩
        · exact hrefl
      · exact hrefl
  | runTask =>
      refine .same ?_ id
      rw [step]
      split
      · next hcall =>
          rw [Senders.runTask]
          split
          · exact hrefl
          · next h => exact ⟨by simp [line, h, hcall], fun _ => rfl⟩
      · exact hrefl
  | other e =>
      refine .same ?_ id
      rw [step]
      split
      · cases e <;> exact hrefl
      · exact hrefl

/-! ## Events that break no frame -/

section OpenHeader

variable {o : Option (Piece (Option ℕ))} {j : ℕ}

/-- A header of the thread is what the thread waits behind. -/
theorem filter_sender_self (ho : ∀ h, o = some h → h.sender = some j) :
    o.filter (fun h => h.sender = some j) = o := by
  cases o with
  | none => rfl
  | some h => simp [ho h rfl]

/-- No other thread waits behind it. -/
theorem filter_sender_of_ne (ho : ∀ h, o = some h → h.sender = some j) {k : ℕ} (hk : k ≠ j) :
    o.filter (fun h => h.sender = some k) = none := by
  cases o with
  | none => rfl
  | some h => simp [ho h rfl, Ne.symm hk]

/-- Behind a piece of the thread, the line waits for the payload of this thread's header or for
none. -/
theorem scanStep_sender (ho : ∀ h, o = some h → h.sender = some j)
    {o' : Option (Piece (Option ℕ))} {p : Piece (Option ℕ)} (hp : p.sender = some j)
    (hpiece : format.scanStep o p = some o') :
    ∀ h, o' = some h → h.sender = some j := by
  intro h ho'
  cases o with
  | none =>
      obtain ⟨-, -, rfl⟩ := scanStep_none hpiece
      split at ho'
      · cases ho'
      · rw [← Option.some.inj ho', hp]
  | some g =>
      obtain ⟨-, rfl⟩ := scanStep_some hpiece
      cases ho'

end OpenHeader

/-- A call of the loop's thread between whole frames. -/
theorem framed_loopCall (h : s.Framed) {c : FrameCall} (hidle : s.unsent none = [])
    (hfits : c.Fits pb) (hlast : lastOpen s.sent = none) :
    ({ s with unsent := Function.update s.unsent none (c.sends pb none) } : Senders σ).Framed := by
  obtain ⟨o, hline, hthread, hunsent⟩ := h
  refine ⟨o, ?_, hthread, hunsent⟩
  simp only [line, hidle, List.append_nil, List.append_assoc] at hline
  obtain ⟨o', hsent, hqueue⟩ := scan_prefix hline
  obtain rfl : o' = none := (eq_lastOpen hsent).trans hlast
  simp only [line, Function.update_self, List.append_assoc]
  rw [scan_append, hsent, Option.bind_some, scan_append, FrameCall.scan_of_fits hfits,
    Option.bind_some]
  exact hqueue

/-- A call of another thread. -/
theorem framed_call (h : s.Framed) {k : ℕ} {c : FrameCall} (hidle : s.unsent (some k) = [])
    (hfits : c.Fits pb) :
    ({ s with unsent := Function.update s.unsent (some k) (c.sends pb (some k)) } : Senders σ).Framed
    := by
  obtain ⟨o, hline, hthread, hunsent⟩ := h
  refine ⟨o, hline, hthread, fun i => ?_⟩
  by_cases hi : i = k
  · subst hi
    have hnone : o.filter (fun h => h.sender = some i) = none := by
      have hempty := hunsent i
      rw [hidle] at hempty
      exact Option.some.inj hempty
    simp only [Function.update_self, hnone]
    exact FrameCall.scan_of_fits hfits _
  · simp only [Function.update_of_ne (Option.some_injective _ |>.ne hi)]
    exact hunsent i

/-- A piece of another thread, unless the line waits for the payload of one more. -/
theorem framed_send (h : s.Framed) {j : ℕ} {p : Piece (Option ℕ)} {ps : List (Piece (Option ℕ))}
    (queue : SendQueue σ) (hbusy : s.unsent (some j) = p :: ps) (hp : p.sender = some j)
    (hown : ∀ h, lastOpen s.line = some h → h.sender = some j) :
    ({ s with
      unsent := Function.update s.unsent (some j) ps
      queue
      pendingTasks := s.pendingTasks ++ [p] } : Senders σ).Framed := by
  obtain ⟨o, hline, hthread, hunsent⟩ := h
  rw [← eq_lastOpen hline] at hown
  -- The piece fits behind the line, because what is open there is the thread's own.
  have hnext := hunsent j
  rw [filter_sender_self hown, hbusy, scan_cons] at hnext
  obtain ⟨o', hpiece, hps⟩ := Option.bind_eq_some_iff.mp hnext
  have hopen := scanStep_sender hown hp hpiece
  refine ⟨o', ?_, ?_, fun k => ?_⟩
  · simp only [line, Function.update_of_ne (Option.some_ne_none j).symm]
    rw [← List.append_assoc, scan_append, ← line, hline, Option.bind_some, scan_singleton]
    exact hpiece
  · intro h ho'
    rw [hopen h ho']
    simp
  -- the other threads still have whole frames in hand
  · by_cases hk : k = j
    · subst hk
      simp only [Function.update_self]
      rw [filter_sender_self hopen]
      exact hps
    · simp only [Function.update_of_ne (Option.some_injective _ |>.ne hk)]
      have hother := hunsent k
      rw [filter_sender_of_ne hown hk] at hother
      rw [filter_sender_of_ne hopen hk]
      exact hother

/-- **An event that breaks no frame leaves the line framed.** -/
theorem framed_step (howned : s.Owned) (h : s.Framed) {e : Event} (he : ¬ s.Breaks pb e) :
    (s.step os pb e).Framed := by
  have hstep := pieceStep os pb s e
  generalize s.step os pb e = s' at hstep ⊢
  -- What a step does with the pieces is one of four things.
  cases hstep with
  | same hsame =>
      obtain ⟨o, hline, hthread, hunsent⟩ := h
      refine ⟨o, hsame.1 ▸ hline, hthread, fun k => ?_⟩
      rw [hsame.2]
      exact hunsent k
  | loopCall hidle =>
      rename_i c
      obtain ⟨hfits, hlast⟩ : c.Fits pb ∧ lastOpen s.sent = none := by
        simp only [Breaks, not_and_or, not_or, not_not, true_and] at he
        exact he.resolve_left fun hbusy => hbusy hidle
      exact framed_loopCall h hidle hfits hlast
  | call hidle =>
      rename_i j c
      have hfits : c.Fits pb := by
        simp only [Breaks, not_and_or, not_or, not_not] at he
        exact (he.resolve_left fun hbusy => hbusy hidle).1
      exact framed_call h hidle hfits
  | send hbusy =>
      rename_i j p ps queue
      refine framed_send h queue hbusy (howned j p (hbusy ▸ List.mem_cons_self)) fun g hopen => ?_
      by_contra hsender
      exact he ⟨by simp [hbusy], g, hopen, hsender⟩

/-! ## Events that break a frame -/

/-- Behind an open header, a call of the loop's thread is out of place. -/
theorem scan_sends_of_open (g : Piece (Option ℕ)) (c : FrameCall) (rest : List (Piece (Option ℕ))) :
    format.scan (some g) (c.sends pb none ++ rest) = none := by
  obtain ⟨p, ps, hsends, hheader, -⟩ := c.sends_head pb none
  have hne : p ≠ g.payload := by
    rintro rfl
    cases hheader
  rw [hsends, List.cons_append, scan_cons, scanStep, if_neg hne]
  rfl

/-- A call of the loop's thread in the middle of the line does not put it right. -/
theorem ruined_loopCall (h : s.Ruined) {c : FrameCall} (hidle : s.unsent none = []) :
    ({ s with unsent := Function.update s.unsent none (c.sends pb none) } : Senders σ).Ruined := by
  refine h.imp_left fun hline => ?_
  simp only [line, hidle, List.append_nil, List.append_assoc] at hline
  simp only [line, Function.update_self, List.append_assoc]
  rw [scan_append] at hline ⊢
  cases hsent : format.scan none s.sent with
  | none => rfl
  | some o =>
      rw [hsent, Option.bind_some] at hline
      rw [Option.bind_some]
      cases o with
      | some g => exact scan_sends_of_open g c _
      | none =>
          by_cases hfits : c.Fits pb
          · rw [scan_append, FrameCall.scan_of_fits hfits, Option.bind_some]
            exact hline
          · obtain ⟨p, hp, hheader, hbad⟩ := FrameCall.exists_bad hfits none
            exact scan_of_bad (List.mem_append_left _ hp) hheader hbad

/-- Nor does a call of another thread, which is not the one with the piece that is bad. -/
theorem ruined_call (h : s.Ruined) {j : ℕ} {c : FrameCall} (hidle : s.unsent (some j) = []) :
    ({ s with unsent := Function.update s.unsent (some j) (c.sends pb (some j)) } : Senders σ).Ruined
    := by
  refine h.imp_right ?_
  rintro ⟨k, p, hp, hbad⟩
  have hk : k ≠ j := by
    rintro rfl
    rw [hidle] at hp
    cases hp
  refine ⟨k, p, ?_, hbad⟩
  simp only [Function.update_of_ne (Option.some_injective _ |>.ne hk)]
  exact hp

/-- Nor does a piece that another thread sends. -/
theorem ruined_send (h : s.Ruined) {j : ℕ} {p : Piece (Option ℕ)} {ps : List (Piece (Option ℕ))}
    (queue : SendQueue σ) (hbusy : s.unsent (some j) = p :: ps) :
    ({ s with
      unsent := Function.update s.unsent (some j) ps
      queue
      pendingTasks := s.pendingTasks ++ [p] } : Senders σ).Ruined := by
  have hline : ({ s with unsent := Function.update s.unsent (some j) ps
                         queue
                         pendingTasks := s.pendingTasks ++ [p] } : Senders σ).line
      = s.line ++ [p] := by
    simp [line]
  -- The line is broken already, or a thread holds a piece that will break it.
  rcases h with hscan | ⟨k, p', hp', hbad⟩
  · left
    rw [hline, scan_append, hscan]
    rfl
  · by_cases hk : k = j
    · subst hk
      rw [hbusy] at hp'
      obtain rfl | hp' := List.mem_cons.mp hp'
      · -- the bad piece itself is in line now
        left
        rw [hline]
        exact scan_of_bad (by simp) hbad.1 hbad.2
      · exact .inr ⟨k, p', by simpa using hp', hbad⟩
    · refine .inr ⟨k, p', ?_, hbad⟩
      simp only [Function.update_of_ne (Option.some_injective _ |>.ne hk)]
      exact hp'

/-- **What is ruined stays so.** -/
theorem ruined_step (h : s.Ruined) (e : Event) : (s.step os pb e).Ruined := by
  have hstep := pieceStep os pb s e
  generalize s.step os pb e = s' at hstep ⊢
  cases hstep with
  | same hsame =>
      unfold Ruined
      rw [hsame.1]
      refine h.imp_right ?_
      rintro ⟨k, p, hp, hbad⟩
      exact ⟨k, p, hsame.2 k ▸ hp, hbad⟩
  | loopCall hidle => exact ruined_loopCall h hidle
  | call hidle => exact ruined_call h hidle
  | send hbusy => exact ruined_send h _ hbusy

/-- **An event that breaks a frame ruins the line.** -/
theorem ruined_of_breaks (howned : s.Owned) (h : s.Framed) {e : Event} (he : s.Breaks pb e) :
    (s.step os pb e).Ruined := by
  have hstep := pieceStep os pb s e
  generalize s.step os pb e = s' at hstep ⊢
  obtain ⟨o, hline, -, -⟩ := h
  cases hstep with
  | same hsame hb => exact absurd he hb
  | loopCall hidle =>
      rename_i c
      left
      simp only [line, Function.update_self, List.append_assoc]
      -- a piece that does not fit its header, or a frame that another thread has opened
      obtain hfits | ⟨-, hlast⟩ := he.2
      · obtain ⟨p, hp, hheader, hbad⟩ := FrameCall.exists_bad hfits none
        exact scan_of_bad (by simp [hp]) hheader hbad
      · simp only [line, List.append_assoc] at hline
        obtain ⟨o', hsent, -⟩ := scan_prefix hline
        rw [scan_append, hsent, Option.bind_some]
        cases o' with
        | none => exact absurd (eq_lastOpen hsent).symm hlast
        | some g => exact scan_sends_of_open g c _
  | call hidle =>
      rename_i j c
      right
      obtain hfits | ⟨hthread, -⟩ := he.2
      · obtain ⟨p, hp, hbad⟩ := FrameCall.exists_bad hfits (some j)
        exact ⟨j, p, by simpa using hp, hbad⟩
      · cases hthread
  | send hbusy =>
      rename_i j p ps queue
      left
      obtain ⟨-, g, hlast, hsender⟩ := he
      -- the open frame expects the payload of another sender
      have hp : p.sender = some j := howned j p (hbusy ▸ List.mem_cons_self)
      have hne : p ≠ g.payload := by
        rintro rfl
        exact hsender hp
      simp only [line, Function.update_of_ne (Option.some_ne_none j).symm]
      rw [← List.append_assoc, scan_append, ← line, hline, eq_lastOpen hline, hlast,
        Option.bind_some, scan_singleton, scanStep, if_neg hne]

/-! ## Pieces and bytes -/

/-- A piece as a send. -/
def toSend (p : Piece (Option ℕ)) : Option ℕ × Bytes := (p.sender, p.data)

/-- The pieces kept beside the data are those of the data. -/
def Labelled (s : Senders σ) : Prop :=
  Connection.sends s.queue.conn.log = s.sent.map toSend ∧
    s.queue.tasks.map (fun x => (some x.1, x.2)) = s.tasks.map toSend ∧
    s.queue.pendingTasks.map (fun x => (some x.1, x.2)) = s.pendingTasks.map toSend ∧
    ∀ thread, ∀ p ∈ s.unsent thread, p.sender = thread

/-- A call keeps the pieces with their data. -/
theorem labelled_call (h : s.Labelled) (thread : Option ℕ) (c : FrameCall) :
    (s.call pb thread c).Labelled := by
  unfold Senders.call
  split
  · refine ⟨h.1, h.2.1, h.2.2.1, fun t p hp => ?_⟩
    by_cases ht : t = thread
    · subst ht
      simp only [Function.update_self] at hp
      exact FrameCall.sender_of_mem hp
    · simp only [Function.update_of_ne ht] at hp
      exact h.2.2.2 t p hp
  · exact h

/-- So does one sending of a thread. -/
theorem labelled_send (h : s.Labelled) (thread : Option ℕ) : (s.send os thread).Labelled := by
  obtain ⟨hsent, htasks, hpending, hown⟩ := h
  unfold Senders.send
  split
  · exact ⟨hsent, htasks, hpending, hown⟩
  · next p ps hbusy =>
      have hp : p.sender = thread := hown thread p (hbusy ▸ List.mem_cons_self)
      -- the pieces left in hand are still the thread's own
      have hown' : ∀ t, ∀ q ∈ Function.update s.unsent thread ps t, q.sender = t := by
        intro t q hq
        by_cases ht : t = thread
        · subst ht
          rw [Function.update_self] at hq
          exact hown t q (hbusy ▸ List.mem_cons_of_mem _ hq)
        · rw [Function.update_of_ne ht] at hq
          exact hown t q hq
      cases thread with
      | none =>
          -- the loop's thread sends at once, the others queue a task
          refine ⟨?_, htasks, hpending, hown'⟩
          simp only [SendQueue.step, SendQueue.send, List.map_append, List.map_cons, List.map_nil,
            toSend, hp]
          rw [Connection.sends_send, hsent]
      | some k =>
          refine ⟨hsent, htasks, ?_, hown'⟩
          simp only [SendQueue.step, SendQueue.send, List.map_append, List.map_cons, List.map_nil,
            hpending, toSend, hp]

/-- So does taking a batch of tasks. -/
theorem labelled_takeTasks (h : s.Labelled) : (s.takeTasks os).Labelled := by
  obtain ⟨hsent, htasks, hpending, hown⟩ := h
  unfold Senders.takeTasks
  split
  · next hnil =>
      have hqueue : s.queue.tasks = [] := by
        rw [hnil] at htasks
        exact List.map_eq_nil_iff.mp htasks
      have hstep : s.queue.step os {} .takeTasks
          = { s.queue with tasks := s.queue.pendingTasks, pendingTasks := [] } := by
        simp only [SendQueue.step, SendQueue.takeTasks, hqueue]
      rw [hstep]
      exact ⟨hsent, hpending, rfl, hown⟩
  · exact ⟨hsent, htasks, hpending, hown⟩

/-- So does running one. -/
theorem labelled_runTask (h : s.Labelled) : (s.runTask os).Labelled := by
  obtain ⟨hsent, htasks, hpending, hown⟩ := h
  unfold Senders.runTask
  split
  · exact ⟨hsent, htasks, hpending, hown⟩
  · next p tasks hcons =>
      rw [hcons, List.map_cons] at htasks
      obtain ⟨⟨k, data⟩, rest, hqueue, hpiece, hrest⟩ := List.map_eq_cons_iff.mp htasks
      have hstep : s.queue.step os {} .runTask
          = { s.queue with conn := s.queue.conn.send os (some k) data, tasks := rest } := by
        simp only [SendQueue.step, SendQueue.runTask, hqueue]
      rw [hstep]
      refine ⟨?_, hrest, hpending, hown⟩
      rw [Connection.sends_send, hsent, List.map_append, List.map_cons, ← hpiece]
      rfl

/-- So does any other event. -/
theorem labelled_other (h : s.Labelled) (e : SendQueue.Event) : (s.other os e).Labelled := by
  obtain ⟨hsent, hrest⟩ := h
  cases e with
  | send => exact ⟨hsent, hrest⟩
  | takeTasks => exact ⟨hsent, hrest⟩
  | runTask => exact ⟨hsent, hrest⟩
  | addFd events =>
      refine ⟨?_, hrest⟩
      have hsends : Connection.sends (SendQueue.addFd s.queue.conn events).log
          = Connection.sends s.queue.conn.log := by
        rw [SendQueue.addFd]
        split <;> rfl
      exact hsends.trans hsent
  | connect r => exact ⟨(Connection.sends_connect os _ r).trans hsent, hrest⟩
  | handleRead io => exact ⟨(Connection.sends_handleRead os _ io).trans hsent, hrest⟩
  | handleWrite io => exact ⟨(Connection.sends_handleWrite os _ io).trans hsent, hrest⟩
  | handleError => exact ⟨(Connection.sends_handleError os _).trans hsent, hrest⟩
  | handleClose => exact ⟨(Connection.sends_handleClose os _).trans hsent, hrest⟩
  | shutdown => exact ⟨(Connection.sends_shutdown _).trans hsent, hrest⟩

/-- So does every step. -/
theorem labelled_step (h : s.Labelled) (e : Event) : (s.step os pb e).Labelled := by
  cases e with
  | call thread c => exact labelled_call h thread c
  | send thread => exact labelled_send h thread
  | takeTasks =>
      rw [step]
      split
      · exact labelled_takeTasks h
      · exact h
  | runTask =>
      rw [step]
      split
      · exact labelled_runTask h
      · exact h
  | other e =>
      rw [step]
      split
      · exact labelled_other h e
      · exact h

/-- The queue of a run is a run of the queue. -/
theorem intact_step (h : s.queue.conn.Intact) (e : Event) :
    (s.step os pb e).queue.conn.Intact := by
  -- Calls and tasks of the session reach the connection through its own queue.
  cases e with
  | call thread c =>
      rw [step, Senders.call]
      split <;> exact h
  | send thread =>
      rw [step, Senders.send]
      split
      · exact h
      · cases thread <;> exact SendQueue.intact_step h _
  | takeTasks =>
      rw [step, Senders.takeTasks]
      split
      · split
        · exact SendQueue.intact_step h _
        · exact h
      · exact h
  | runTask =>
      rw [step, Senders.runTask]
      split
      · split
        · exact h
        · exact SendQueue.intact_step h _
      · exact h
  | other e =>
      rw [step]
      split
      · cases e <;> first | exact h | exact SendQueue.intact_step h _
      · exact h

/-- **The bytes written are those of the pieces executed.** -/
theorem written_eq (hintact : s.queue.conn.Intact) (h : s.Labelled) :
    s.written = s.sent.flatMap Piece.data := by
  rw [written, hintact, h.1, List.flatMap_map]
  rfl

/-! ## Runs -/

/-- What a thread has still to send is its own. -/
theorem owned_of_labelled (h : s.Labelled) : s.Owned := fun k p hp => h.2.2.2 (some k) p hp

/-- There are no pieces at the start. -/
theorem labelled_start (fd : ℕ) (app : σ) (isAccepted : Bool) :
    (start (SendQueue.fresh fd app isAccepted)).Labelled := by
  refine ⟨?_, rfl, rfl, fun _ _ hp => absurd hp List.not_mem_nil⟩
  cases isAccepted <;> rfl

variable (os pb) in
/-- **Along every run the pieces are those of the data.** -/
theorem labelled_run (fd : ℕ) (app : σ) (isAccepted : Bool) (es : List Event) :
    (run os pb (SendQueue.fresh fd app isAccepted) es).Labelled :=
  Trace.run_preserves (I := Labelled) (fun _ e h => labelled_step h e)
    (labelled_start fd app isAccepted) es

/-- The output of the connection is intact along every run. -/
theorem intact_run (fd : ℕ) (app : σ) (isAccepted : Bool) (es : List Event) :
    (run os pb (SendQueue.fresh fd app isAccepted) es).queue.conn.Intact :=
  Trace.run_preserves (I := fun s : Senders σ => s.queue.conn.Intact)
    (fun _ e h => intact_step h e) (SendQueue.fresh_intact fd app isAccepted) es

variable (os pb) in
/-- A run in which no event breaks a frame is framed, and any other is ruined. -/
theorem framed_or_ruined (fd : ℕ) (app : σ) (isAccepted : Bool) (es : List Event) :
    let c := SendQueue.fresh fd app isAccepted
    Trace.Always (step os pb) (fun s e => ¬ s.Breaks pb e) (start c) es ∧ (run os pb c es).Framed ∨
      ¬ Trace.Always (step os pb) (fun s e => ¬ s.Breaks pb e) (start c) es ∧
        (run os pb c es).Ruined := by
  intro c
  exact Trace.run_verdict (I := Labelled) (fun s e h => labelled_step h e)
    (fun s e h hframed he => framed_step (owned_of_labelled h) hframed he)
    (fun s e h hframed he => ruined_of_breaks (owned_of_labelled h) hframed (not_not.mp he))
    (fun s e _ hruined => ruined_step hruined e) (labelled_start fd app isAccepted)
    ⟨none, rfl, by simp, fun _ => rfl⟩ es

/-- When every call is done, the line is what was sent. -/
theorem line_of_done (h : s.Done) : s.line = s.sent := by
  simp [line, h.1 none, h.2.1, h.2.2]

/-- When all is sent, pieces that are framed are whole frames. -/
theorem whole_of_framed (h : s.Done) (hs : s.Framed) : format.Whole s.sent := by
  obtain ⟨o, hline, hthread, hunsent⟩ := hs
  rw [line_of_done h] at hline
  cases o with
  | none => exact scan_eq_none_iff.mp hline
  | some g =>
      obtain ⟨k, hk⟩ := Option.ne_none_iff_exists'.mp (hthread g rfl)
      have hwait := hunsent k
      simp [h.1, hk] at hwait

/-- And pieces out of place are not. -/
theorem not_whole_of_ruined (h : s.Done) (hs : s.Ruined) : ¬ format.Whole s.sent := by
  intro hwhole
  rcases hs with hline | ⟨k, p, hp, -⟩
  · rw [line_of_done h, scan_of_whole hwhole] at hline
    cases hline
  · rw [h.1] at hp
    cases hp

/-- **Frames from several threads.** In every run of the threads that send frames on a connection:

* the bytes written to it are those of the pieces executed;
* if no event breaks a frame, the pieces executed are a prefix of whole frames, each header followed
  by its own payload, and so are the bytes;
* once every call is done, the pieces executed are whole frames exactly if no event broke one. -/
theorem frames_whole_iff (os : Os) (pb : Protobuf) (fd : ℕ) (app : σ) (isAccepted : Bool)
    (es : List Event) :
    let c := SendQueue.fresh fd app isAccepted
    let s := run os pb c es
    let unbroken := Trace.Always (step os pb) (fun s e => ¬ s.Breaks pb e) (start c) es
    s.written = s.sent.flatMap Piece.data ∧
      (unbroken → ∃ rest, format.Whole (s.sent ++ rest) ∧
        ∃ ms, (∀ m ∈ ms, format.IsMessage m) ∧ s.written ++ rest.flatMap Piece.data = wire ms) ∧
      (s.Done → (format.Whole s.sent ↔ unbroken)) := by
  intro c s unbroken
  have hwritten : s.written = s.sent.flatMap Piece.data :=
    written_eq (intact_run fd app isAccepted es) (labelled_run os pb fd app isAccepted es)
  have hcases := framed_or_ruined os pb fd app isAccepted es
  refine ⟨hwritten, fun halways => ?_, fun hdone => ?_⟩
  -- unbroken: the pieces sent so far are whole frames and a header, whose payload is still to come
  · obtain ⟨-, hframed⟩ := hcases.resolve_right fun h => h.1 halways
    obtain ⟨o, hline, -⟩ := hframed
    simp only [line, List.append_assoc] at hline
    obtain ⟨o', hsent, -⟩ := scan_prefix hline
    have hwhole := whole_of_scan (by simp) hsent
    refine ⟨(o'.map Piece.payload).toList, by simpa using hwhole, ?_⟩
    obtain ⟨ms, hms, heq⟩ := hwhole
    refine ⟨ms.map Prod.snd, ?_, ?_⟩
    · intro m hm
      obtain ⟨m', hm', rfl⟩ := List.mem_map.mp hm
      exact hms m' hm'
    · rw [hwritten, ← flatMap_data, ← heq, List.flatMap_append]
      rfl
  · obtain ⟨halways, hframed⟩ | ⟨hbreaks, hruined⟩ := hcases
    · exact iff_of_true (whole_of_framed hdone hframed) halways
    · exact iff_of_false (not_whole_of_ruined hdone hruined) hbreaks

/-- Two threads each send a DATA frame of one byte: both headers are queued before the payloads,
and the bytes on the connection are not whole frames. -/
theorem frames_whole_fails_on_interleaving :
    let es : List Event :=
      [.call (some 0) (.sendStreamData 1 [97] false), .call (some 1) (.sendStreamData 3 [98] false),
        .send (some 0), .send (some 1), .send (some 0), .send (some 1),
        .takeTasks, .runTask, .runTask, .runTask, .runTask]
    let s := run { write := fun _ => .accepted 100, modify := fun _ => true } .shortPayload
      (SendQueue.fresh 5 () true) es
    s.Done ∧ ¬ ∃ ms, (∀ m ∈ ms, format.IsMessage m) ∧ s.written = wire ms := by
  intro es s
  refine ⟨⟨?_, by decide, by decide⟩, ?_⟩
  · rintro (_ | _ | _ | k)
    · rfl
    · rfl
    · rfl
    · rfl
  · rintro ⟨ms, hms, hwritten⟩
    have hbytes : s.written
        = [0, 0, 1, 0, 0, 0, 0, 0, 1] ++ [0] ++ [0, 1, 0, 0, 0, 0, 0, 3, 97, 98] := by
      decide
    -- the payload of the first frame is the first byte of the second header
    obtain ⟨hwhole, -, hrest⟩ := first_append
      (show format.IsMessage ([0, 0, 1, 0, 0, 0, 0, 0, 1], [0]) by decide)
      [0, 1, 0, 0, 0, 0, 0, 3, 97, 98]
    have hnil : format.Incomplete [] := by decide
    have hsplit := split_wire hms hnil
    rw [List.append_nil, ← hwritten, hbytes, split_of_complete hwhole, hrest,
      split_of_incomplete (by decide)] at hsplit
    cases (Prod.ext_iff.mp hsplit).2

end NetworkLib.Http2.Senders
