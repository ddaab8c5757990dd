import NetworkLib.Core.Moves

/-! # Closing is final

The operations that the event loop, the application and a protocol handler perform on a connection,
one after another and, through its callbacks, inside one another. Whatever their order, the
descriptor is closed once, after its removal from the loop, the disconnect callback runs at most
once, and nothing is read, written or shut down after that. -/

namespace NetworkLib

open Relation

variable {σ : Type*} {os : Os} {cb : Callbacks σ}

/-- An operation performed on a connection in the loop's thread. -/
inductive Operation where
  | handleRead (io : Io)
  | handleWrite (io : Io)
  | handleClose
  | handleError
  /-- `Send`, `Shutdown` or `ForceClose`. -/
  | call (x : ConnCall)

namespace Connection

variable (os cb) in
/-- Perform one operation. -/
def perform (c : Connection σ) : Operation → Connection σ
  | .handleRead io => c.handleRead os cb io
  | .handleWrite io => c.handleWrite os cb io
  | .handleClose => c.handleClose os cb
  | .handleError => c.handleError os cb
  | .call x => c.call os cb x

variable (os cb) in
/-- Perform some operations, one after another. -/
def performAll (c : Connection σ) (ops : List Operation) : Connection σ :=
  ops.foldl (perform os cb) c

variable (os cb) in
/-- An operation consists of moves. -/
theorem moves_perform (c : Connection σ) (op : Operation) : Moves os c (c.perform os cb op) := by
  cases op with
  | handleRead io => exact moves_handleRead os cb c io
  | handleWrite io => exact moves_handleWrite os cb c io
  | handleClose => exact (outMoves_handleClose os cb c).moves
  | handleError => exact moves_handleError os cb c
  | call x => exact (outMoves_call os cb c x).moves

variable (os cb) in
/-- An operation on a settled connection consists of plain moves. -/
theorem plainMoves_perform {c : Connection σ} (hc : c.Settled) (op : Operation) :
    PlainMoves os c (c.perform os cb op) := by
  cases op with
  | handleRead io => exact plainMoves_handleRead os cb hc io
  | handleWrite io => exact (outMoves_handleWrite os cb hc io).plain
  | handleClose => exact (outMoves_handleClose os cb c).plain
  | handleError => exact (outMoves_handleError os cb hc.1).plain
  | call x => exact (outMoves_call os cb c x).plain

variable (os cb) in
/-- Some operations make moves. -/
theorem moves_performAll (c : Connection σ) (ops : List Operation) :
    Moves os c (c.performAll os cb ops) := by
  induction ops generalizing c with
  | nil => exact .refl
  | cons op ops ih => exact (moves_perform os cb c op).trans (ih _)

variable (os cb) in
/-- On a settled connection they make plain moves only. -/
theorem plainMoves_performAll {c : Connection σ} (hc : c.Settled) (ops : List Operation) :
    PlainMoves os c (c.performAll os cb ops) := by
  induction ops generalizing c with
  | nil => exact .refl
  | cons op ops ih =>
      have hop := plainMoves_perform os cb hc op
      exact hop.trans (ih (hop.settled hc))

/-! ## The log of a connection that closes -/

/-- An effect of `HandleClose`. -/
def IsClosing : Effect → Prop
  | .removeFd _ => True
  | .close _ => True
  | .disconnectCallback => True
  | _ => False

/-- An effect that neither uses the descriptor nor starts the message or the disconnect callback. -/
def IsIdle : Effect → Prop
  | .send _ _ => True
  | .connectCallback _ => True
  | _ => False

/-- The log of a connection that was closed once: the descriptor was removed from the loop and then
closed, the disconnect callback ran right after that if at all, and nothing was done on the
descriptor later. A read that had nothing to return leaves no effect; but whatever a socket might
have returned is among the runs. -/
def ClosedOnce (fd : ℤ) (log : List Effect) : Prop :=
  ∃ before notified after,
    log = before ++ .removeFd fd :: .close fd :: (notified ++ after) ∧
    (∀ e ∈ before, ¬ IsClosing e) ∧ (notified = [] ∨ notified = [.disconnectCallback]) ∧
    ∀ e ∈ after, IsIdle e

/-- What every move keeps: the connection is open on `fd` and has not closed it, or it was closed
once. -/
def Ends (fd : ℤ) (c : Connection σ) : Prop :=
  c.state ≠ .kDisconnected ∧ c.fd = fd ∧ (∀ e ∈ c.log, ¬ IsClosing e) ∨
    c.state = .kDisconnected ∧ c.fd < 0 ∧ ClosedOnce fd c.log

variable {c c' : Connection σ} {fd : ℤ}

/-- `Send` writes only while connected. -/
theorem send_log_of_not_connected (os : Os) (hs : c.state ≠ .kConnected) (sender : Option ℕ)
    (data : Bytes) : (c.send os sender data).log = c.log ++ [.send sender data] := by
  obtain ⟨d, rfl | ⟨hs', -⟩, hsend⟩ := send_cases os c sender data
  · rw [hsend]
    split
    · obtain ⟨_, _, hmodify⟩ := modifyFd_eq os (c.buffered sender data) { epollOut := true }
      rw [hmodify]
      rfl
    · rfl
  · exact absurd hs' hs

/-- A step that leaves state and descriptor alone and does nothing on a closed descriptor. -/
theorem Ends.grow (hc : c.Ends fd) (hstate : c'.state = c.state) (hfd : c'.fd = c.fd)
    {es : List Effect} (hlog : c'.log = c.log ++ es) (hes : ∀ e ∈ es, ¬ IsClosing e)
    (hidle : c.state = .kDisconnected → ∀ e ∈ es, IsIdle e) : c'.Ends fd := by
  rcases hc with ⟨hs, hfd', hopen⟩ | ⟨hs, hfd', before, notified, after, hclosed, hrest⟩
  · refine .inl ⟨hstate ▸ hs, hfd ▸ hfd', ?_⟩
    rw [hlog, List.forall_mem_append]
    exact ⟨hopen, hes⟩
  · refine .inr ⟨hstate ▸ hs, hfd ▸ hfd', before, notified, after ++ es, ?_, hrest.1, hrest.2.1, ?_⟩
    · rw [hlog, hclosed]
      simp
    · rw [List.forall_mem_append]
      exact ⟨hrest.2.2, hidle hs⟩

/-- A change of the state of an open connection. -/
theorem Ends.enter (hc : c.Ends fd) (hopen : 0 ≤ c.fd ∨ c.state ≠ .kDisconnected)
    {state : ConnState} (hstate : state ≠ .kDisconnected) :
    Ends fd { c with state } := by
  rcases hc with ⟨-, hfd, hlog⟩ | ⟨hs, hfd, -⟩
  · exact .inl ⟨hstate, hfd, hlog⟩
  · rcases hopen with h | h
    · omega
    · exact absurd hs h

/-- The step that closes. -/
theorem Ends.close (hfd : 0 ≤ fd) (hc : c.Ends fd) (hs : c.state ≠ .kDisconnected)
    (hstate : c'.state = .kDisconnected) (hfd' : c'.fd < 0) {notified : List Effect}
    (hlog : c'.log = c.closeFd.log ++ notified)
    (hnotified : notified = [] ∨ notified = [.disconnectCallback]) : c'.Ends fd := by
  rcases hc with ⟨-, rfl, hopen⟩ | ⟨hs', -⟩
  · refine .inr ⟨hstate, hfd', c.log, notified, [], ?_, hopen, hnotified, nofun⟩
    rw [hlog, closeFd, if_pos hfd]
    simp
  · exact absurd hs' hs

/-- **Every move keeps it.** -/
theorem Move.ends (hfd : 0 ≤ fd) (h : Move os c c') (hc : c.Ends fd) : c'.Ends fd := by
  cases h with
  | plain h =>
      cases h with
      | out h =>
          cases h with
          | send data =>
              obtain ⟨hstate, hfd'⟩ := send_state os c none data
              obtain ⟨-, hlog | ⟨written, hlog⟩⟩ := send_log os c none data
              · exact hc.grow hstate hfd' hlog (by simp [IsClosing]) fun _ => by simp [IsIdle]
              · refine hc.grow hstate hfd' hlog (by simp [IsClosing]) fun hs => ?_
                rw [send_log_of_not_connected _ (by rw [hs]; exact nofun),
                  List.append_cancel_left_eq] at hlog
                cases hlog
          | shutdown =>
              obtain h | ⟨hs, h | ⟨-, h⟩⟩ := shutdown_cases c
              · rwa [h]
              · rw [h]
                -- output is pending: only the state changes
                exact hc.enter (.inr (by rw [hs]; exact nofun)) nofun
              · rw [h]
                have hdown : Ends fd { c with state := .kDisconnecting } :=
                  hc.enter (.inr (by rw [hs]; exact nofun)) nofun
                exact hdown.grow rfl rfl rfl (by simp [IsClosing]) nofun
          | close hs =>
              exact hc.close hfd hs rfl (Int.negSucc_lt_zero 0) (List.append_nil _).symm (.inl rfl)
          | closeNotify hs app =>
              exact hc.close hfd hs rfl (Int.negSucc_lt_zero 0) rfl (.inr rfl)
          | write _ hs =>
              exact hc.grow rfl rfl rfl (by simp [IsClosing]) fun h => absurd h hs
          | disarm =>
              obtain ⟨_, _, h⟩ := modifyFd_eq os c {}
              rw [h]
              exact hc.grow rfl rfl (List.append_nil _).symm nofun nofun
      | read hs => exact hc.grow rfl rfl rfl (by simp [IsClosing]) fun h => absurd h hs
      | eof hs => exact hc.grow rfl rfl rfl (by simp [IsClosing]) fun h => absurd h hs
      | messageCallback hs app inputBuffer =>
          exact hc.grow rfl rfl rfl (by simp [IsClosing]) fun h => absurd h hs
      | onMessage hs app inputBuffer =>
          refine hc.grow rfl rfl rfl (by simp [IsClosing]) fun h => ?_
          rw [hs] at h
          cases h
  | connecting h => exact hc.enter (.inl h) nofun
  | connected h => exact hc.enter h nofun
  | connectCallback app success =>
      exact hc.grow rfl rfl rfl (by simp [IsClosing]) fun _ => by simp [IsIdle]

/-- **Closing is final and signalled once.** Whatever is performed on an open connection, and
whatever its callbacks call in turn: the disconnect callback runs at most once; the descriptor is
closed once if the connection is disconnected, right after its removal from the loop, and otherwise
not at all; and after the step that disconnects nothing is read, written or shut down on the
descriptor, and no message callback is started. -/
theorem closing_final (os : Os) (cb : Callbacks σ) {c : Connection σ}
    (hopen : c.state ≠ .kDisconnected) (hfd : 0 ≤ c.fd) (hlog : ∀ e ∈ c.log, ¬ IsClosing e)
    (ops : List Operation) :
    let c' := c.performAll os cb ops
    c'.log.count .disconnectCallback ≤ 1 ∧
    (c'.state = .kDisconnected → ClosedOnce c.fd c'.log) ∧
    (c'.state ≠ .kDisconnected → ∀ e ∈ c'.log, ¬ IsClosing e) := by
  intro c'
  have hends : c'.Ends c.fd :=
    invariant_of_moves (fun _ _ => Move.ends hfd) (moves_performAll os cb c ops)
      (.inl ⟨hopen, rfl, hlog⟩)
  have hnone {es : List Effect} (h : ∀ e ∈ es, ¬ IsClosing e) :
      es.count .disconnectCallback = 0 :=
    List.count_eq_zero.mpr fun hmem => h _ hmem trivial
  rcases hends with ⟨hs, -, hquiet⟩ | ⟨hs, -, hclosed⟩
  · exact ⟨by rw [hnone hquiet]; exact Nat.zero_le 1, fun h => absurd h hs, fun _ => hquiet⟩
  · refine ⟨?_, fun _ => hclosed, fun h => absurd hs h⟩
    obtain ⟨before, notified, after, heq, hbefore, hnotified, hafter⟩ := hclosed
    have hidle : after.count .disconnectCallback = 0 :=
      List.count_eq_zero.mpr fun hmem => hafter _ hmem
    rw [heq, List.count_append, hnone hbefore]
    rcases hnotified with rfl | rfl
    · simp [hidle]
    · simp [hidle]

/-- A connected descriptor whose message callback answers and closes, twice over: the second read of
the loop is not made, and the calls that follow do nothing. -/
theorem closing_final_nested :
    let os : Os := { write := fun _ => .accepted 0, modify := fun _ => true }
    let cb : Callbacks Unit :=
      { message := some fun app buf => (app, buf, [.send [1], .forceClose, .forceClose])
        disconnect := some fun app => (app, [.send [2], .forceClose]) }
    let c : Connection Unit := { app := (), fd := 5, state := .kConnected }
    let c' := c.performAll os cb
      [.handleRead { reads := [.bytes [7], .bytes [8]] }, .handleClose, .handleWrite {}]
    c'.log.count .disconnectCallback ≤ 1 ∧ ClosedOnce 5 c'.log := by
  intro os cb c c'
  obtain ⟨honce, hclosed, -⟩ := closing_final os cb (c := c) nofun (by decide) nofun
    [.handleRead { reads := [.bytes [7], .bytes [8]] }, .handleClose, .handleWrite {}]
  exact ⟨honce, hclosed (by decide)⟩

end Connection

end NetworkLib
