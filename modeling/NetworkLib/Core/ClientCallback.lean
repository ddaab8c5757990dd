import NetworkLib.Core.Moves

/-! # The callback of an accepted connection

The accept callback registers each connection with a callback of its own, which reads, calls the
protocol handler, writes and closes. -/

namespace NetworkLib

open Relation

variable {σ : Type*}

/-- `OnMessage` of a protocol handler, as a connection sees it: from the application state and the
readable bytes, what it leaves of both, and its calls on the connection. -/
abbrev OnMessage (σ : Type*) := σ → Buffer → σ × Buffer × List ConnCall

/-- A protocol handler whose `OnMessage` works on a `Session`. -/
def OnMessage.ofSession (f : Session σ × Buffer → Session σ × Buffer) : OnMessage (Session σ) :=
  fun s buf =>
    let (t, rest) := f (s, buf)
    (t, rest, t.calls.drop s.calls.length)

/-- One call of the callback: what `EPOLLIN` and `EPOLLOUT` bring, if they are set, and whether
`EPOLLHUP` or `EPOLLERR` is. -/
structure ClientEvent where
  input : Option Io := none
  output : Option Io := none
  hangup : Bool := false

namespace Connection

/-- What the accept callback installs; the disconnect callback makes no call on the connection. -/
def serverCallbacks : Callbacks σ := { disconnect := some fun app => (app, []) }

/-- A connection that was accepted on `fd` and registered. -/
def accepted (fd : ℕ) (app : σ) : Connection σ :=
  ({ app, fd, interest := some {} } : Connection σ).setConnected

variable (os : Os) (cb : Callbacks σ) (handler : OnMessage σ)

/-- Call the protocol handler. -/
def onMessage (c : Connection σ) : Connection σ :=
  let (app, inputBuffer, calls) := handler c.app c.inputBuffer
  calls.foldl (call os cb) ({ c with app, inputBuffer }.push (.onMessage c.inputBuffer))

/-- What the callback does on `EPOLLIN`. -/
def onReadable (c : Connection σ) (io : Io) : Connection σ :=
  if (c.handleRead os cb io).isConnected then (c.handleRead os cb io).onMessage os cb handler
  else c.handleRead os cb io

/-- What the callback does on `EPOLLOUT`, `EPOLLHUP` and `EPOLLERR`. -/
def onRest (c : Connection σ) (e : ClientEvent) : Connection σ :=
  let c := match e.output with
    | none => c
    | some io => c.handleWrite os cb io
  if e.hangup then c.handleClose os cb else c

/-- The callback. -/
def clientCallback (c : Connection σ) (e : ClientEvent) : Connection σ :=
  match e.input with
  | none => c.onRest os cb e
  | some io => (c.onReadable os cb handler io).onRest os cb e

variable {c : Connection σ}

/-- `OnMessage` on a connected connection makes plain moves only. -/
theorem plainMoves_onMessage (hs : c.state = .kConnected) :
    PlainMoves os c (c.onMessage os cb handler) :=
  .head (.onMessage hs _ _) (outMoves_foldl (outMoves_call os cb) _ _).plain

/-- A readable event makes moves. -/
theorem moves_onReadable (c : Connection σ) (io : Io) :
    Moves os c (c.onReadable os cb handler io) := by
  unfold onReadable
  split
  · next h =>
      exact (moves_handleRead os cb c io).trans
        (plainMoves_onMessage os cb handler (of_decide_eq_true h)).moves
  · exact moves_handleRead os cb c io

/-- So does the rest of an event. -/
theorem moves_onRest (c : Connection σ) (e : ClientEvent) : Moves os c (c.onRest os cb e) := by
  have hwrite : Moves os c (match e.output with
      | none => c
      | some io => c.handleWrite os cb io) := by
    split
    · exact .refl
    · exact moves_handleWrite os cb c _
  unfold onRest
  simp only
  split
  · exact hwrite.trans (outMoves_handleClose os cb _).moves
  · exact hwrite

/-- The rest of an event reads nothing from a settled connection. -/
theorem outMoves_onRest (hc : c.Settled) (e : ClientEvent) : OutMoves os c (c.onRest os cb e) := by
  have hwrite : OutMoves os c (match e.output with
      | none => c
      | some io => c.handleWrite os cb io) := by
    split
    · exact .refl
    · exact outMoves_handleWrite os cb hc _
  unfold onRest
  simp only
  split
  · exact hwrite.trans (outMoves_handleClose os cb _)
  · exact hwrite

/-- A readable event makes plain moves on a settled connection. -/
theorem plainMoves_onReadable (hc : c.Settled) (io : Io) :
    PlainMoves os c (c.onReadable os cb handler io) := by
  unfold onReadable
  split
  · next h =>
      exact (plainMoves_handleRead os cb hc io).trans
        (plainMoves_onMessage os cb handler (of_decide_eq_true h))
  · exact plainMoves_handleRead os cb hc io

/-- **The callback is a sequence of moves.** -/
theorem moves_clientCallback (c : Connection σ) (e : ClientEvent) :
    Moves os c (c.clientCallback os cb handler e) := by
  unfold clientCallback
  split
  · exact moves_onRest os cb c e
  · exact (moves_onReadable os cb handler c _).trans (moves_onRest os cb _ e)

/-- So does a whole event. -/
theorem plainMoves_clientCallback (hc : c.Settled) (e : ClientEvent) :
    PlainMoves os c (c.clientCallback os cb handler e) := by
  unfold clientCallback
  split
  · exact (outMoves_onRest os cb hc e).plain
  · next io _ =>
      have hread := plainMoves_onReadable os cb handler hc io
      exact hread.trans (outMoves_onRest os cb (hread.settled hc) e).plain

variable {os cb handler}

/-- A disconnected connection ignores every event. -/
theorem clientCallback_of_disconnected (hs : c.state = .kDisconnected) (e : ClientEvent) :
    c.clientCallback os cb handler e = c := by
  have hread (io : Io) : c.onReadable os cb handler io = c := by
    simp [onReadable, handleRead, isConnected, hs]
  have hrest : c.onRest os cb e = c := by
    have hwrite (io : Io) : c.handleWrite os cb io = c := if_pos hs
    have hclose : c.handleClose os cb = c := if_pos hs
    unfold onRest
    cases e.output <;> simp only [hwrite, hclose, ite_self]
  unfold clientCallback
  split
  · exact hrest
  · rw [hread, hrest]

/-- A connection just accepted is open and not disconnected. -/
theorem accepted_paired (fd : ℕ) (app : σ) : (accepted fd app).Paired := by
  simp [Paired, accepted, setConnected]

/-- It neither connects nor is in a handshake. -/
theorem accepted_settled (fd : ℕ) (app : σ) : (accepted fd app).Settled := by
  simp [Settled, accepted, setConnected]

end Connection

end NetworkLib
