import NetworkLib.Core.OutputStream

/-! # Connections without callbacks

A connection on which no callback is installed executes no `Send` but those it is asked for:
reading, writing, connecting and closing leave the sends executed as they are. -/

namespace NetworkLib.Connection

variable {σ : Type*} (os : Os)

/-- `HandleClose` sends nothing. -/
theorem sends_handleClose (c : Connection σ) :
    sends (c.handleClose os {}).log = sends c.log := by
  unfold handleClose
  split
  · rfl
  · simp only [closeFd, sends_append]
    split <;> simp [sends, Effect.send?]

/-- Nor does `HandleError`. -/
theorem sends_handleError (c : Connection σ) :
    sends (c.handleError os {}).log = sends c.log := by
  unfold handleError
  split
  · rfl
  · split
    · exact sends_handleClose os c
    · exact sends_handleClose os c

/-- Nor does the loop of reads. -/
theorem sends_readLoop (c : Connection σ) (rs : List ReadResult) :
    sends (c.readLoop os {} rs).log = sends c.log := by
  induction rs generalizing c with
  | nil => rfl
  | cons r rs ih =>
      unfold readLoop
      split
      · rfl
      · cases r with
        | bytes data =>
            simp only
            split
            · rw [sends_handleClose, push_log, sends_append]
              exact List.append_nil _
            · rw [ih]
              simp [notifyMessage, Effect.send?]
        | wouldBlock => rfl
        | error => exact sends_handleError os c

/-- Nor does a handshake. -/
theorem sends_handleHandshake (c : Connection σ) (io : Io) :
    sends (c.handleHandshake os {} io).log = sends c.log := by
  unfold handleHandshake
  split
  · exact sends_readLoop os _ _
  · rfl
  · exact sends_handleError os c

/-- Nor does `HandleRead`. -/
theorem sends_handleRead (c : Connection σ) (io : Io) :
    sends (c.handleRead os {} io).log = sends c.log := by
  unfold handleRead
  split
  · rfl
  · split
    · exact sends_handleHandshake os c io
    · exact sends_readLoop os c _

/-- Writing is no sending. -/
theorem sends_writeOut (c : Connection σ) (data : Bytes) :
    sends (c.writeOut os data).log = sends c.log := by
  simp [writeOut, Effect.send?]

/-- Nor is a change of the interest. -/
theorem sends_modifyFd (c : Connection σ) (events : Interest) :
    sends (c.modifyFd os events).log = sends c.log := by
  obtain ⟨_, _, h⟩ := modifyFd_eq os c events
  rw [h]

/-- Nor is the loop of writes. -/
theorem sends_writeLoop (c : Connection σ) :
    sends (c.writeLoop os {}).log = sends c.log := by
  refine Loop.run_induction (P := fun d => sends d.log = sends c.log)
    (Q := fun d => sends d.log = sends c.log) _ writeTurn_rank ?_ ?_ c rfl
  · intro d d' hd h
    unfold writeTurn at h
    split at h
    · split at h
      · cases h
        rw [sends_writeOut, hd]
      · cases h
      · cases h
    · cases h
  · intro d d' hd h
    unfold writeTurn at h
    split at h
    · split at h
      · cases h
      · cases h
        rw [sends_writeOut, hd]
      · cases h
        rw [sends_handleError, sends_writeOut, hd]
    · cases h
      exact hd

/-- Nor is writing what is buffered. -/
theorem sends_flush (c : Connection σ) (io : Io) :
    sends (c.flush os {} io).log = sends c.log := by
  unfold flush
  split
  · exact sends_handleHandshake os c io
  · simp only
    split
    · rw [sends_modifyFd, sends_writeLoop]
    · exact sends_writeLoop os c

/-- `HandleWrite` sends nothing. -/
theorem sends_handleWrite (c : Connection σ) (io : Io) :
    sends (c.handleWrite os {} io).log = sends c.log := by
  unfold handleWrite
  split
  · rfl
  · split
    · split
      · exact sends_handleError os c
      · exact sends_flush os _ io
    · exact sends_flush os c io

/-- Nor does `Connect`. -/
theorem sends_connect (c : Connection σ) (r : ConnectResult) :
    sends (c.connect os {} r).log = sends c.log := by
  unfold connect
  split
  · rfl
  · cases r <;> rfl

/-- Nor does `Shutdown`. -/
theorem sends_shutdown (c : Connection σ) : sends c.shutdown.log = sends c.log := by
  obtain h | ⟨-, h | ⟨-, h⟩⟩ := shutdown_cases c
  · rw [h]
  · rw [h]
  · rw [h, push_log, sends_append]
    exact List.append_nil _

end NetworkLib.Connection
