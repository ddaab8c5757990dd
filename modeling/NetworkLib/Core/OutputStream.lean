import NetworkLib.Theory.Trace
import NetworkLib.Core.Moves

/-! # The output stream of a connection

`Send` may be called in any thread. In the loop's thread it is executed at once; in any other it is
queued with the loop and executed when the loop runs its tasks. What the socket has accepted
followed by what is still in the output buffer is always the data of the sends executed so far, in
order, and output is never left without `EPOLLOUT` (`output_stream_integrity`). -/

namespace NetworkLib

open Relation

variable {σ : Type*}

/-- The data of one sender's entries, in order. -/
def ofSender {ι : Type*} [DecidableEq ι] (t : ι) (l : List (ι × Bytes)) : List Bytes :=
  (l.filter fun x => x.1 = t).map Prod.snd

@[simp] theorem ofSender_append {ι : Type*} [DecidableEq ι] (t : ι) (l l' : List (ι × Bytes)) :
    ofSender t (l ++ l') = ofSender t l ++ ofSender t l' := by
  simp [ofSender]

namespace Effect

/-- The send an effect records. -/
def send? : Effect → Option (Option ℕ × Bytes)
  | .send sender data => some (sender, data)
  | _ => none

/-- The bytes an effect hands to the socket. -/
def written : Effect → Bytes
  | .write data => data
  | _ => []

end Effect

namespace Connection

/-- The sends executed, in order. -/
def sends (log : List Effect) : List (Option ℕ × Bytes) := log.filterMap Effect.send?

/-- The bytes the socket has accepted. -/
def wire (log : List Effect) : Bytes := log.flatMap Effect.written

@[simp] theorem sends_append (log log' : List Effect) :
    sends (log ++ log') = sends log ++ sends log' := List.filterMap_append ..

@[simp] theorem wire_append (log log' : List Effect) :
    wire (log ++ log') = wire log ++ wire log' := List.flatMap_append ..

@[simp] theorem sends_singleton (e : Effect) : sends [e] = e.send?.toList := by
  cases h : e.send? <;> simp [sends, h]

@[simp] theorem wire_singleton (e : Effect) : wire [e] = e.written := List.append_nil _

/-- Nothing is lost, duplicated or reordered on the way through the output buffer. -/
def Intact (c : Connection σ) : Prop :=
  wire c.log ++ c.outputBuffer = (sends c.log).flatMap Prod.snd

/-- Output waits only under `EPOLLOUT`, where the descriptor is registered. -/
def Armed (c : Connection σ) : Prop :=
  ∀ events, c.interest = some events → c.outputBuffer ≠ [] → events.epollOut = true

/-- A closed descriptor belongs to a disconnected connection. -/
def Shut (c : Connection σ) : Prop := c.fd < 0 → c.state = .kDisconnected

/-- Only a closed descriptor is not registered. -/
def Held (c : Connection σ) : Prop := c.interest = none → c.fd < 0

variable {os : Os} {cb : Callbacks σ} {c c' : Connection σ}

/-- An effect that neither writes nor sends keeps the output intact. -/
theorem Intact.push (h : c.Intact) {e : Effect} (hwire : e.written = []) (hsend : e.send? = none) :
    (c.push e).Intact := by
  unfold Intact at h ⊢
  simp [hwire, hsend, h]

variable (os) in
/-- So does writing from the buffer. -/
theorem Intact.writeOut (h : c.Intact) : (c.writeOut os c.outputBuffer).Intact := by
  unfold Intact at h ⊢
  simp [Connection.writeOut, Effect.written, Effect.send?, h]

/-- So does sending to the buffer. -/
theorem Intact.buffered (h : c.Intact) (sender : Option ℕ) (data : Bytes) :
    (c.buffered sender data).Intact := by
  unfold Intact at h ⊢
  simp [Connection.buffered, Effect.written, Effect.send?, ← h]

/-- So does a change of the interest. -/
theorem Intact.modifyFd (h : c.Intact) (events : Interest) : (c.modifyFd os events).Intact := by
  obtain ⟨_, _, hmodify⟩ := modifyFd_eq os c events
  rw [hmodify]
  exact h

/-- **`Send` keeps the stream intact**: it writes past the buffer only when the buffer was empty. -/
theorem Intact.send (h : c.Intact) (sender : Option ℕ) (data : Bytes) :
    (c.send os sender data).Intact := by
  obtain ⟨d, hd, hsend⟩ := send_cases os c sender data
  have hintact : d.Intact := by
    obtain rfl | ⟨-, hempty, rfl⟩ := hd
    · exact h.buffered sender data
    · have hbuf : (c.buffered sender data).outputBuffer = data := by
        simp [Connection.buffered, hempty]
      have hwrite := (h.buffered sender data).writeOut os
      rwa [hbuf] at hwrite
  rw [hsend]
  split
  · exact hintact.modifyFd _
  · exact hintact

/-- So does closing the descriptor. -/
theorem Intact.closeFd (h : c.Intact) : c.closeFd.Intact := by
  have hwire : wire (.removeFd c.fd :: if 0 ≤ c.fd then [.close c.fd] else []) = [] := by
    split <;> rfl
  have hsends : sends (.removeFd c.fd :: if 0 ≤ c.fd then [.close c.fd] else []) = [] := by
    split <;> rfl
  unfold Intact at h ⊢
  rw [Connection.closeFd, wire_append, sends_append, hwire, hsends, List.append_nil,
    List.append_nil, h]

/-- So does every move. -/
theorem Move.intact (h : Move os c c') (hc : c.Intact) : c'.Intact := by
  cases h with
  | plain h =>
      cases h with
      | out h =>
          cases h with
          | send data => exact hc.send none data
          | shutdown =>
              obtain h | ⟨-, h | ⟨-, h⟩⟩ := shutdown_cases c
              · rwa [h]
              · rwa [h]
              · rw [h]
                exact Intact.push (c := { c with state := .kDisconnecting }) hc rfl rfl
          | close => exact hc.closeFd
          | closeNotify _ app =>
              exact Intact.push (c := { c.closeFd with app }) hc.closeFd rfl rfl
          | write => exact hc.writeOut os
          | disarm => exact hc.modifyFd _
      | read _ hdata => exact Intact.push (c := { c with inputBuffer := _ }) hc rfl rfl
      | eof => exact hc.push rfl rfl
      | messageCallback _ app inputBuffer =>
          exact Intact.push (c := { c with app, inputBuffer }) hc rfl rfl
      | onMessage _ app inputBuffer =>
          exact Intact.push (c := { c with app, inputBuffer }) hc rfl rfl
  | connecting => exact hc
  | connected => exact hc
  | connectCallback app success => exact Intact.push (c := { c with app }) hc rfl rfl

/-- `Send` is one call of a sender with its data. -/
theorem sends_send (c : Connection σ) (sender : Option ℕ) (data : Bytes) :
    sends (c.send os sender data).log = sends c.log ++ [(sender, data)] := by
  obtain ⟨-, h | ⟨_, h⟩⟩ := send_log os c sender data
  · rw [h, sends_append]
    rfl
  · rw [h, sends_append]
    rfl

/-- After `Send`, output waits under `EPOLLOUT`, if the poller takes the change. -/
theorem Armed.send (hmodify : ∀ k, os.modify k = true) (sender : Option ℕ) (data : Bytes) :
    (c.send os sender data).Armed := by
  obtain ⟨d, -, hsend⟩ := send_cases os c sender data
  rw [hsend]
  split
  · intro events hevents _
    unfold modifyFd at hevents
    split at hevents
    · rw [if_pos (hmodify _), Option.some_inj] at hevents
      rw [← hevents]
    · next hnone =>
        rw [hevents] at hnone
        exact absurd rfl hnone
  · next hlen =>
      intro _ _ hne
      exact absurd (List.length_pos_iff.mpr hne) hlen

/-- **No move strands output.** -/
theorem Move.armed (hmodify : ∀ k, os.modify k = true) (h : Move os c c') (hc : c.Armed) :
    c'.Armed := by
  -- Only `Send` fills the output buffer, and it asks for `EPOLLOUT` when it does.
  cases h with
  | plain h =>
      cases h with
      | out h =>
          cases h with
          | send data => exact Armed.send hmodify none data
          | shutdown =>
              obtain h | ⟨-, h | ⟨-, h⟩⟩ := shutdown_cases c
              · rwa [h]
              · rwa [h]
              · rwa [h]
          | close =>
              intro _ hevents
              cases hevents
          | closeNotify =>
              intro _ hevents
              cases hevents
          | write hne =>
              intro events hevents _
              exact hc events hevents hne
          | disarm hnil =>
              intro _ _ hne
              obtain ⟨_, _, hmod⟩ := modifyFd_eq os c {}
              rw [hmod] at hne
              exact absurd hnil hne
      | read => exact hc
      | eof => exact hc
      | messageCallback => exact hc
      | onMessage => exact hc
  | connecting => exact hc
  | connected => exact hc
  | connectCallback => exact hc

/-- A move keeps a closed descriptor with a disconnected connection. -/
theorem Move.shut (h : Move os c c') (hc : c.Shut) : c'.Shut := by
  cases h with
  | plain h =>
      unfold Shut at hc ⊢
      obtain ⟨hs, hfd⟩ | ⟨hs, -, hfd⟩ | ⟨-, hs', -⟩ := h.state_cases
      · rwa [hs, hfd]
      · intro hneg
        have hdown := hc (hfd ▸ hneg)
        rw [hs] at hdown
        cases hdown
      · exact fun _ => hs'
  | connecting h => exact fun hfd => absurd h (not_le.mpr hfd)
  | connected h =>
      exact fun hfd => absurd (hc hfd) (h.elim (fun h => absurd h (not_le.mpr hfd)) id)
  | connectCallback => exact hc

/-- A change of the interest registers no descriptor. -/
theorem modifyFd_interest (c : Connection σ) (events : Interest) :
    (c.modifyFd os events).interest = none ↔ c.interest = none := by
  unfold modifyFd
  cases h : c.interest with
  | none => simp [h]
  | some i =>
      simp only [Option.isSome_some, if_true]
      split <;> simp

/-- Nor does `Send`. -/
theorem send_interest (c : Connection σ) (sender : Option ℕ) (data : Bytes) :
    (c.send os sender data).interest = none ↔ c.interest = none := by
  obtain ⟨d, hd, hsend⟩ := send_cases os c sender data
  have hinterest : d.interest = c.interest := by
    obtain rfl | ⟨-, -, rfl⟩ := hd
    · rfl
    · rfl
  rw [hsend, ← hinterest]
  split
  · exact modifyFd_interest d _
  · rfl

/-- **Closing is the one way to lose the registration**, and there is none to gain it. -/
theorem Move.interest (h : Move os c c') :
    (c'.interest = none ↔ c.interest = none) ∧ c'.fd = c.fd ∨ c'.interest = none ∧ c'.fd < 0 := by
  cases h with
  | plain h =>
      cases h with
      | out h =>
          cases h with
          | send data => exact .inl ⟨send_interest c none data, (send_state os c none data).2⟩
          | shutdown =>
              obtain h | ⟨-, h | ⟨-, h⟩⟩ := shutdown_cases c
              · exact .inl (by simp [h])
              · exact .inl (by simp [h])
              · exact .inl (by simp [h])
          | close => exact .inr ⟨rfl, show (-1 : ℤ) < 0 by decide⟩
          | closeNotify => exact .inr ⟨rfl, show (-1 : ℤ) < 0 by decide⟩
          | write => exact .inl ⟨Iff.rfl, rfl⟩
          | disarm =>
              obtain ⟨_, _, h⟩ := modifyFd_eq os c {}
              exact .inl ⟨modifyFd_interest c _, by rw [h]⟩
      | read => exact .inl ⟨Iff.rfl, rfl⟩
      | eof => exact .inl ⟨Iff.rfl, rfl⟩
      | messageCallback => exact .inl ⟨Iff.rfl, rfl⟩
      | onMessage => exact .inl ⟨Iff.rfl, rfl⟩
  | connecting => exact .inl ⟨Iff.rfl, rfl⟩
  | connected => exact .inl ⟨Iff.rfl, rfl⟩
  | connectCallback => exact .inl ⟨Iff.rfl, rfl⟩

/-- A move keeps open descriptors registered. -/
theorem Move.held (h : Move os c c') (hc : c.Held) : c'.Held := by
  intro hnone
  obtain ⟨hiff, hfd⟩ | ⟨-, hfd⟩ := h.interest
  · rw [hfd]
    exact hc (hiff.mp hnone)
  · exact hfd

/-- A descriptor that is not registered stays so. -/
theorem Move.unregistered (h : Move os c c') (hc : c.interest = none) : c'.interest = none := by
  obtain ⟨hiff, -⟩ | ⟨hnone, -⟩ := h.interest
  · exact hiff.mpr hc
  · exact hnone

/-- A move adds to the log, and no send of another thread. -/
theorem Move.log (h : Move os c c') :
    ∃ l, c'.log = c.log ++ l ∧ ∀ k : ℕ, ofSender (some k) (sends l) = [] := by
  -- No move logs a send of a thread other than the loop's.
  cases h with
  | plain h =>
      cases h with
      | out h =>
          cases h with
          | send data =>
              obtain ⟨-, h | ⟨_, h⟩⟩ := send_log os c none data
              · exact ⟨_, h, fun _ => rfl⟩
              · exact ⟨_, h, fun _ => rfl⟩
          | shutdown =>
              obtain h | ⟨-, h | ⟨-, h⟩⟩ := shutdown_cases c
              · exact ⟨[], by rw [h, List.append_nil], fun _ => rfl⟩
              · exact ⟨[], by rw [h, List.append_nil], fun _ => rfl⟩
              · exact ⟨_, by rw [h]; rfl, fun _ => rfl⟩
          | close => exact ⟨_, rfl, fun _ => by split <;> rfl⟩
          | closeNotify =>
              refine ⟨_, List.append_assoc .., fun _ => ?_⟩
              split <;> rfl
          | write => exact ⟨_, rfl, fun _ => rfl⟩
          | disarm =>
              obtain ⟨_, _, h⟩ := modifyFd_eq os c {}
              exact ⟨[], by rw [h, List.append_nil], fun _ => rfl⟩
      | read => exact ⟨_, rfl, fun _ => rfl⟩
      | eof => exact ⟨_, rfl, fun _ => rfl⟩
      | messageCallback => exact ⟨_, rfl, fun _ => rfl⟩
      | onMessage => exact ⟨_, rfl, fun _ => rfl⟩
  | connecting => exact ⟨[], (List.append_nil _).symm, fun _ => rfl⟩
  | connected => exact ⟨[], (List.append_nil _).symm, fun _ => rfl⟩
  | connectCallback => exact ⟨_, rfl, fun _ => rfl⟩

/-- Moves add to the log, and send in the name of no thread but the loop. -/
theorem Moves.log (h : Moves os c c') :
    ∃ l, c'.log = c.log ++ l ∧ ∀ k : ℕ, ofSender (some k) (sends l) = [] := by
  induction h with
  | refl => exact ⟨[], (List.append_nil _).symm, fun _ => rfl⟩
  | tail _ hbc ih =>
      obtain ⟨l, hl, hnone⟩ := ih
      obtain ⟨l', hl', hnone'⟩ := Move.log hbc
      refine ⟨l ++ l', by rw [hl', hl, List.append_assoc], fun k => ?_⟩
      rw [sends_append, ofSender_append, hnone, hnone', List.append_nil]

end Connection

/-! ## Sends in many threads -/

/-- A connection, and the sends other threads have queued with its loop: those still pending, and
those the loop is about to run. -/
structure SendQueue (σ : Type*) where
  conn : Connection σ
  pendingTasks : List (ℕ × Bytes) := []
  tasks : List (ℕ × Bytes) := []

namespace SendQueue

/-- What happens to the connection. The thread is `none` for the loop's own; `EventLoop::Run` is the
first thing that thread does. -/
inductive Event where
  /-- `Send`, called in a thread. -/
  | send (thread : Option ℕ) (data : Bytes)
  /-- `EventLoop::HandleRead` takes the pending tasks. -/
  | takeTasks
  /-- `EventLoop::HandleRead` runs the next task. -/
  | runTask
  | addFd (events : Interest)
  | connect (r : ConnectResult)
  | handleRead (io : Io)
  | handleWrite (io : Io)
  | handleError
  | handleClose
  | shutdown

/-- The connection with nothing queued. -/
def start (c : Connection σ) : SendQueue σ := { conn := c }

variable (os : Os) (cb : Callbacks σ)

/-- `Connection::Send`: executed in the loop's thread, queued by `RunInLoop` in any other. -/
def send (q : SendQueue σ) (thread : Option ℕ) (data : Bytes) : SendQueue σ :=
  match thread with
  | none => { q with conn := q.conn.send os none data }
  | some k => { q with pendingTasks := q.pendingTasks ++ [(k, data)] }

/-- Swap the pending tasks out, once the last ones taken have run. -/
def takeTasks (q : SendQueue σ) : SendQueue σ :=
  match q.tasks with
  | [] => { q with tasks := q.pendingTasks, pendingTasks := [] }
  | _ :: _ => q

/-- Run the next task taken. -/
def runTask (q : SendQueue σ) : SendQueue σ :=
  match q.tasks with
  | [] => q
  | (k, data) :: tasks => { q with conn := q.conn.send os (some k) data, tasks }

/-- `EventLoop::AddFd`; a closed or registered descriptor is refused. -/
def addFd (c : Connection σ) (events : Interest) : Connection σ :=
  if c.interest.isNone ∧ 0 ≤ c.fd then { c with interest := some events } else c

/-- One event. -/
def step (q : SendQueue σ) : Event → SendQueue σ
  | .send thread data => q.send os thread data
  | .takeTasks => q.takeTasks
  | .runTask => q.runTask os
  | .addFd events => { q with conn := addFd q.conn events }
  | .connect r => { q with conn := q.conn.connect os cb r }
  | .handleRead io => { q with conn := q.conn.handleRead os cb io }
  | .handleWrite io => { q with conn := q.conn.handleWrite os cb io }
  | .handleError => { q with conn := q.conn.handleError os cb }
  | .handleClose => { q with conn := q.conn.handleClose os cb }
  | .shutdown => { q with conn := q.conn.shutdown }

/-- The sends called in a run, in order. -/
def issued (es : List Event) : List (Option ℕ × Bytes) :=
  es.filterMap fun
    | .send thread data => some (thread, data)
    | _ => none

@[simp] theorem issued_append (es es' : List Event) :
    issued (es ++ es') = issued es ++ issued es' := List.filterMap_append ..

/-- What one event does to the connection: moves, one task, or the registration. -/
inductive ConnStep (os : Os) (q : SendQueue σ) : Event → Connection σ → Prop where
  | moves {e : Event} {c : Connection σ} (h : Connection.Moves os q.conn c) : ConnStep os q e c
  | task {k : ℕ} {data : Bytes} {tasks : List (ℕ × Bytes)} (h : q.tasks = (k, data) :: tasks) :
      ConnStep os q .runTask (q.conn.send os (some k) data)
  | addFd (events : Interest) : ConnStep os q (.addFd events) (addFd q.conn events)

/-- What one event does to the connection. -/
theorem connStep (q : SendQueue σ) (e : Event) : ConnStep os q e (q.step os cb e).conn := by
  cases e with
  | send thread data =>
      cases thread with
      | none => exact .moves (.single (.plain (.out (.send q.conn data))))
      | some k => exact .moves .refl
  | takeTasks =>
      refine .moves ?_
      rw [step, takeTasks]
      split <;> exact .refl
  | runTask =>
      cases h : q.tasks with
      | nil =>
          rw [step, runTask, h]
          exact .moves .refl
      | cons task tasks =>
          rw [step, runTask, h]
          exact .task h
  | addFd events => exact .addFd events
  | connect r => exact .moves (Connection.moves_connect os cb q.conn r)
  | handleRead io => exact .moves (Connection.moves_handleRead os cb q.conn io)
  | handleWrite io => exact .moves (Connection.moves_handleWrite os cb q.conn io)
  | handleError => exact .moves (Connection.moves_handleError os cb q.conn)
  | handleClose => exact .moves (Connection.outMoves_handleClose os cb q.conn).moves
  | shutdown => exact .moves (.single (.plain (.out (.shutdown q.conn))))

variable {os cb} {q : SendQueue σ}

/-- An event keeps the output intact. -/
theorem intact_step (h : q.conn.Intact) (e : Event) : (q.step os cb e).conn.Intact := by
  have hstep := connStep os cb q e
  generalize (q.step os cb e).conn = c at hstep ⊢
  cases hstep with
  | moves hmoves =>
      exact Connection.invariant_of_moves (fun _ _ => Connection.Move.intact) hmoves h
  | task => exact h.send _ _
  | addFd events =>
      unfold addFd
      split
      · exact h
      · exact h

/-- The sends of another thread: those executed, those taken and those pending. -/
def sentBy (q : SendQueue σ) (k : ℕ) : List Bytes :=
  ofSender (some k) (Connection.sends q.conn.log) ++ ofSender k q.tasks ++ ofSender k q.pendingTasks

/-- Moves of the connection send nothing for a thread. -/
theorem sentBy_of_moves {c : Connection σ} (h : Connection.Moves os q.conn c) (k : ℕ) :
    ({ q with conn := c } : SendQueue σ).sentBy k = q.sentBy k := by
  obtain ⟨l, hl, hnone⟩ := h.log
  simp only [sentBy, hl, Connection.sends_append, ofSender_append, hnone, List.append_nil]

/-- **A thread's sends stay in its program order**, through both queues. -/
theorem sentBy_step (q : SendQueue σ) (e : Event) (k : ℕ) :
    (q.step os cb e).sentBy k = q.sentBy k ++ ofSender (some k) (issued [e]) := by
  -- What changes the connection alone leaves both queues, and sends nothing of a thread's.
  have hmoves {c : Connection σ} (h : Connection.Moves os q.conn c) :
      ({ q with conn := c } : SendQueue σ).sentBy k = q.sentBy k ++ [] := by
    rw [sentBy_of_moves h, List.append_nil]
  cases e with
  | send thread data =>
      cases thread with
      | none => exact hmoves (.single (.plain (.out (.send q.conn data))))
      | some j =>
          by_cases hj : j = k
          · simp [step, SendQueue.send, sentBy, ofSender, issued, hj]
          · simp [step, SendQueue.send, sentBy, ofSender, issued, hj]
  | takeTasks =>
      rw [step, SendQueue.takeTasks]
      split
      · -- the tasks move from the queue to the hands of the loop
        next h => simp [sentBy, h, ofSender, issued]
      · exact (List.append_nil _).symm
  | runTask =>
      -- the first task becomes a send of the connection
      rw [step, SendQueue.runTask]
      split
      · exact (List.append_nil _).symm
      · next j data tasks h =>
          simp only [sentBy, Connection.sends_send, h]
          by_cases hj : j = k
          · simp [ofSender, issued, hj]
          · simp [ofSender, issued, hj]
  | addFd events =>
      rw [step, addFd]
      split
      · exact (List.append_nil _).symm
      · exact (List.append_nil _).symm
  | connect r => exact hmoves (Connection.moves_connect os cb q.conn r)
  | handleRead io => exact hmoves (Connection.moves_handleRead os cb q.conn io)
  | handleWrite io => exact hmoves (Connection.moves_handleWrite os cb q.conn io)
  | handleError => exact hmoves (Connection.moves_handleError os cb q.conn)
  | handleClose => exact hmoves (Connection.outMoves_handleClose os cb q.conn).moves
  | shutdown => exact hmoves (.single (.plain (.out (.shutdown q.conn))))

variable (os cb) in
/-- The sends executed only grow. -/
theorem sends_step (q : SendQueue σ) (e : Event) :
    Connection.sends q.conn.log <+: Connection.sends (q.step os cb e).conn.log := by
  have hstep := connStep os cb q e
  generalize (q.step os cb e).conn = c at hstep ⊢
  cases hstep with
  | moves h =>
      obtain ⟨l, hl, -⟩ := h.log
      rw [hl, Connection.sends_append]
      exact List.prefix_append _ _
  | task =>
      rw [Connection.sends_send]
      exact List.prefix_append _ _
  | addFd events =>
      unfold addFd
      split
      · exact List.prefix_rfl
      · exact List.prefix_rfl

/-- **The loop's own sends are executed at once.** -/
theorem sublist_step {l : List Bytes}
    (h : List.Sublist l (ofSender none (Connection.sends q.conn.log))) (e : Event) :
    List.Sublist (l ++ ofSender none (issued [e]))
      (ofSender none (Connection.sends (q.step os cb e).conn.log)) := by
  have hgrow : List.Sublist l (ofSender none (Connection.sends (q.step os cb e).conn.log)) := by
    obtain ⟨l', hl'⟩ := sends_step os cb q e
    rw [← hl', ofSender_append]
    exact h.trans (List.sublist_append_left _ _)
  cases e with
  | send thread data =>
      cases thread with
      | none =>
          rw [step, SendQueue.send, Connection.sends_send, ofSender_append]
          exact h.append (List.Sublist.refl _)
      | some k => simpa [issued, ofSender] using hgrow
  | _ => simpa [issued, ofSender] using hgrow

/-- An event keeps a closed descriptor with a disconnected connection. -/
theorem shut_step (h : q.conn.Shut) (e : Event) : (q.step os cb e).conn.Shut := by
  have hstep := connStep os cb q e
  generalize (q.step os cb e).conn = c at hstep ⊢
  cases hstep with
  | moves hmoves => exact Connection.invariant_of_moves (fun _ _ => Connection.Move.shut) hmoves h
  | task =>
      obtain ⟨hs, hfd⟩ := Connection.send_state os q.conn (some _) _
      unfold Connection.Shut at h ⊢
      rwa [hs, hfd]
  | addFd events =>
      unfold addFd
      split
      · exact h
      · exact h

/-- Before its registration a connection is not registered. -/
theorem unregistered_step (h : q.conn.interest = none) {e : Event}
    (he : ∀ events, e ≠ .addFd events) : (q.step os cb e).conn.interest = none := by
  have hstep := connStep os cb q e
  generalize (q.step os cb e).conn = c at hstep ⊢
  cases hstep with
  | moves hmoves =>
      exact Connection.invariant_of_moves (P := fun c => Connection.interest c = none)
        (fun _ _ => Connection.Move.unregistered) hmoves h
  | task => exact (Connection.send_interest _ _ _).mpr h
  | addFd events => exact absurd rfl (he events)

/-- From its registration on, a connection is held by the loop, and its output waits under
`EPOLLOUT`. -/
theorem registered_step (hmodify : ∀ k, os.modify k = true)
    (h : q.conn.Held ∧ q.conn.Armed) (e : Event) :
    (q.step os cb e).conn.Held ∧ (q.step os cb e).conn.Armed := by
  have hstep := connStep os cb q e
  generalize (q.step os cb e).conn = c at hstep ⊢
  cases hstep with
  | moves hmoves =>
      refine Connection.invariant_of_moves
        (P := fun c => Connection.Held c ∧ Connection.Armed c) ?_ hmoves h
      exact fun _ _ hab ha => ⟨hab.held ha.1, hab.armed hmodify ha.2⟩
  | task =>
      refine ⟨fun hnone => ?_, .send hmodify _ _⟩
      rw [(Connection.send_state os q.conn (some _) _).2]
      exact h.1 ((Connection.send_interest _ _ _).mp hnone)
  | addFd events =>
      unfold addFd
      split
      · next hnone =>
          -- the loop holds it already, so the registration is refused
          have hclosed := h.1 (Option.isNone_iff_eq_none.mp hnone.1)
          exact absurd hnone.2 (not_le.mpr hclosed)
      · exact h

/-- The registration itself, before the first send is executed or with `EPOLLOUT`. -/
theorem registered_addFd (hq : q.conn.Intact) (hnone : q.conn.interest = none) {events : Interest}
    (h : events.epollOut = true ∨ Connection.sends q.conn.log = []) :
    (addFd q.conn events).Held ∧ (addFd q.conn events).Armed := by
  unfold addFd
  split
  · refine ⟨(by cases ·), fun events' hevents hne => ?_⟩
    rw [Option.some_inj] at hevents
    subst hevents
    refine h.resolve_right fun hsends => hne ?_
    have hout : Connection.wire q.conn.log ++ q.conn.outputBuffer = [] := by rw [hq, hsends]; rfl
    exact (List.append_eq_nil_iff.mp hout).2
  · next hc =>
      refine ⟨fun _ => ?_, fun events' hevents => ?_⟩
      · by_contra hfd
        exact hc ⟨Option.isNone_iff_eq_none.mpr hnone, not_lt.mp hfd⟩
      · rw [hnone] at hevents
        cases hevents

/-! ## Runs -/

/-- A run. -/
def run (os : Os) (cb : Callbacks σ) (c : Connection σ) (es : List Event) : SendQueue σ :=
  Trace.run (step os cb) (start c) es

/-- A connection just made on `fd`: marked connected when it was accepted, or still to be
connected. -/
def fresh (fd : ℕ) (app : σ) (isAccepted : Bool) : Connection σ :=
  if isAccepted then ({ app, fd } : Connection σ).setConnected else { app, fd }

/-- Some events after others. -/
theorem run_append (c : Connection σ) (es es' : List Event) :
    run os cb c (es ++ es') = Trace.run (step os cb) (run os cb c es) es' :=
  Trace.run_append (start c) es es'

/-- The last event comes after all the others. -/
theorem run_snoc (c : Connection σ) (es : List Event) (e : Event) :
    run os cb c (es ++ [e]) = (run os cb c es).step os cb e :=
  run_append c es [e]

/-- The output of a new connection is intact. -/
theorem fresh_intact (fd : ℕ) (app : σ) (isAccepted : Bool) : (fresh fd app isAccepted).Intact := by
  cases isAccepted <;> rfl

/-- Its descriptor is open. -/
theorem fresh_shut (fd : ℕ) (app : σ) (isAccepted : Bool) : (fresh fd app isAccepted).Shut := by
  cases isAccepted <;> simp [Connection.Shut, fresh, Connection.setConnected]

/-- **No output is stranded.** From its registration on, a connected connection whose output buffer
is not empty is registered for `EPOLLOUT`. -/
theorem armed_of_registered (hmodify : ∀ k, os.modify k = true) {fd : ℕ} {app : σ}
    {isAccepted : Bool} {pre post : List Event} {events : Interest}
    (hpre : ∀ events', .addFd events' ∉ pre)
    (hfirst : events.epollOut = true ∨
      Connection.sends (run os cb (fresh fd app isAccepted) pre).conn.log = [])
    (hconn : (run os cb (fresh fd app isAccepted) (pre ++ .addFd events :: post)).conn.state
      = .kConnected)
    (hout : (run os cb (fresh fd app isAccepted) (pre ++ .addFd events :: post)).conn.outputBuffer
      ≠ []) :
    ∃ i, (run os cb (fresh fd app isAccepted) (pre ++ .addFd events :: post)).conn.interest = some i ∧
      i.epollOut = true := by
  set c := fresh fd app isAccepted with hc
  have hintact : (run os cb c pre).conn.Intact :=
    Trace.run_preserves (I := fun q : SendQueue σ => Connection.Intact q.conn)
      (fun _ e h => intact_step h e)
      (fresh_intact fd app isAccepted) pre
  have hshut : (run os cb c (pre ++ .addFd events :: post)).conn.Shut :=
    Trace.run_preserves (I := fun q : SendQueue σ => Connection.Shut q.conn)
      (fun _ e h => shut_step h e)
      (fresh_shut fd app isAccepted) _
  -- before the registration nothing arms the connection
  have hnone : (run os cb c pre).conn.interest = none := by
    clear hfirst hconn hout hintact hshut
    induction pre using List.reverseRecOn with
    | nil => cases isAccepted <;> rfl
    | append_singleton pre e ih =>
        rw [run_snoc]
        refine unregistered_step (ih fun events' h => hpre events' (by simp [h])) ?_
        rintro events' rfl
        exact hpre events' (by simp)
  -- and from then on every step keeps it armed
  have hreg : (run os cb c (pre ++ .addFd events :: post)).conn.Held ∧
      (run os cb c (pre ++ .addFd events :: post)).conn.Armed := by
    rw [run_append, Trace.run_cons]
    exact Trace.run_preserves
      (I := fun q : SendQueue σ => Connection.Held q.conn ∧ Connection.Armed q.conn)
      (fun _ e h => registered_step hmodify h e) (registered_addFd hintact hnone hfirst) post
  generalize run os cb c (pre ++ .addFd events :: post) = q at hshut hreg hconn hout ⊢
  cases hi : q.conn.interest with
  | none =>
      have hdown := hshut (hreg.1 hi)
      rw [hconn] at hdown
      cases hdown
  | some i => exact ⟨i, rfl, hreg.2 i hi hout⟩

/-- **Output stream integrity.** In every run of a connection, over any results of `write`:

* what the socket has accepted, followed by the output buffer, is the data of the sends executed, in
  the order of their execution; those of another thread, followed by its queued ones, are the sends
  it has called, in its program order; and the loop's own are executed at once, in order;
* when `epoll_ctl` does not fail and the descriptor is registered before the first send is executed
  or for `EPOLLOUT`, output of a connected connection never waits without `EPOLLOUT`. -/
theorem output_stream_integrity (os : Os) (cb : Callbacks σ) (fd : ℕ) (app : σ) (isAccepted : Bool)
    (es : List Event) :
    let c := fresh fd app isAccepted
    let q := run os cb c es
    (Connection.wire q.conn.log ++ q.conn.outputBuffer
        = (Connection.sends q.conn.log).flatMap Prod.snd ∧
      (∀ k : ℕ, ofSender (some k) (Connection.sends q.conn.log) ++ ofSender k q.tasks
          ++ ofSender k q.pendingTasks = ofSender (some k) (issued es)) ∧
      List.Sublist (ofSender none (issued es)) (ofSender none (Connection.sends q.conn.log))) ∧
    ((∀ k, os.modify k = true) → ∀ pre events post, es = pre ++ .addFd events :: post →
      (∀ events', .addFd events' ∉ pre) →
      events.epollOut = true ∨ Connection.sends (run os cb c pre).conn.log = [] →
      q.conn.state = .kConnected → q.conn.outputBuffer ≠ [] →
        ∃ i, q.conn.interest = some i ∧ i.epollOut = true) := by
  intro c q
  refine ⟨⟨?_, ?_, ?_⟩, ?_⟩
  · exact Trace.run_preserves (I := fun q : SendQueue σ => Connection.Intact q.conn)
      (fun _ e h => intact_step h e)
      (fresh_intact fd app isAccepted) es
  -- order of each thread: one step of the queues at a time
  · intro k
    change (run os cb c es).sentBy k = _
    clear q
    induction es using List.reverseRecOn with
    | nil => cases isAccepted <;> rfl
    | append_singleton es e ih =>
        rw [run_snoc, sentBy_step, ih, issued_append, ofSender_append]
  -- order of what the loop's thread sends, of which a closed connection takes nothing
  · change List.Sublist _ (ofSender none (Connection.sends (run os cb c es).conn.log))
    clear q
    induction es using List.reverseRecOn with
    | nil => exact List.nil_sublist _
    | append_singleton es e ih =>
        rw [run_snoc, issued_append, ofSender_append]
        exact sublist_step ih e
  · rintro hmodify pre events post rfl hpre hfirst hconn hout
    exact armed_of_registered hmodify hpre hfirst hconn hout

/-- A socket that accepts one byte and then would block: the rest waits, and a send of thread 0
behind it. -/
theorem output_stream_integrity_partial_write :
    let os : Os := { write := fun k => if k = 0 then .accepted 0 else .wouldBlock
                     modify := fun _ => true }
    let es : List Event :=
      [.addFd {}, .send none [1, 2], .send (some 0) [3], .takeTasks, .runTask, .handleWrite {}]
    let q := run os {} (fresh 5 () true) es
    (Connection.wire q.conn.log = [1] ∧ q.conn.outputBuffer = [2, 3]) ∧
      ∃ i, q.conn.interest = some i ∧ i.epollOut = true := by
  intro os es q
  refine ⟨by decide, ?_⟩
  exact (output_stream_integrity os {} 5 () true es).2 (fun _ => rfl) [] {} _ rfl
    (fun _ => List.not_mem_nil) (.inr rfl) (by decide) (by decide)

end SendQueue

end NetworkLib
