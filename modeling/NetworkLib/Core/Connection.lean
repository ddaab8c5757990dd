import NetworkLib.Theory.Loop
import NetworkLib.Memory.Buffer
import NetworkLib.Protocols.Handler

/-! # Connections

`Connection` with its callbacks, its socket and its registration with the event loop. What the
operating system answers comes from outside: the results of `read`, of the TLS handshake and of
`getsockopt` with each event (`Io`), those of `write` and `epoll_ctl` from `Os`. A log records what
the connection has done to its socket and its callbacks.

`Connection::Connect` also writes a debug log file, and every operation log lines and trace spans;
they are left out, as is the connection's rate limiter, which no code installs. -/

namespace NetworkLib

open Loop

/-- `Connection::State`. -/
inductive ConnState where
  | kConnecting
  | kHandshaking
  | kConnected
  | kDisconnecting
  | kDisconnected
  deriving DecidableEq, Repr

/-- The interest registered for a descriptor; `EPOLLET` never reaches `epoll_ctl`. -/
structure Interest where
  epollIn : Bool := true
  epollOut : Bool := false
  deriving DecidableEq, Repr

/-- What `Read` returns: some bytes (none of them at the end of file), or a failure. -/
inductive ReadResult where
  | bytes (data : Bytes)
  | wouldBlock
  | error
  deriving DecidableEq

/-- What `Write` returns. `accepted k` stands for `k + 1` bytes, or all of them when there are no
more. -/
inductive WriteResult where
  | accepted (k : ℕ)
  | wouldBlock
  | error
  deriving DecidableEq

/-- What `SSL_do_handshake` returns. -/
inductive HandshakeResult where
  | done
  | again
  | error
  deriving DecidableEq

/-- What `connect` returns; `invalid` is an address `inet_pton` rejects, or a failure. -/
inductive ConnectResult where
  | done
  | inProgress
  | invalid
  deriving DecidableEq

/-- The answers of the operating system to the `k`-th `Write` on the socket, and whether the `k`-th
`epoll_ctl` that modifies its registration succeeds. -/
structure Os where
  write : ℕ → WriteResult
  modify : ℕ → Bool

/-- What one event brings: the outcome of the handshake or of the connect it may complete, and the
results of the reads it may start. -/
structure Io where
  handshake : HandshakeResult := .again
  reads : List ReadResult := []
  soError : Bool := false

/-- What a connection has done. -/
inductive Effect where
  /-- `Read` returned these bytes. -/
  | read (data : Bytes)
  /-- `OnMessage` was called with these readable bytes. -/
  | onMessage (readable : Bytes)
  /-- `Send` was executed; the sender is `none` for the loop's thread. -/
  | send (sender : Option ℕ) (data : Bytes)
  /-- `Write` accepted these bytes. -/
  | write (data : Bytes)
  | shutdown
  | removeFd (fd : ℤ)
  | close (fd : ℤ)
  | connectCallback (success : Bool)
  | messageCallback
  | disconnectCallback
  deriving DecidableEq

variable {σ : Type*}

/-- The callbacks installed on a connection, over an application state `σ`. Each returns the calls
it makes on the connection. -/
structure Callbacks (σ : Type*) where
  connect : Option (σ → Bool → σ × List ConnCall) := none
  message : Option (σ → Buffer → σ × Buffer × List ConnCall) := none
  disconnect : Option (σ → σ × List ConnCall) := none

/-- A `Connection`. -/
structure Connection (σ : Type*) where
  app : σ
  fd : ℤ
  state : ConnState := .kDisconnected
  inputBuffer : Buffer := []
  outputBuffer : Buffer := []
  /-- What the loop has registered for the descriptor. -/
  interest : Option Interest := none
  log : List Effect := []
  /-- `Write` calls made so far. -/
  writes : ℕ := 0
  /-- `epoll_ctl` calls made so far to modify the registration. -/
  modifies : ℕ := 0

namespace Connection

/-- Record an effect. -/
def push (c : Connection σ) (e : Effect) : Connection σ := { c with log := c.log ++ [e] }

/-- `SetConnected`. -/
def setConnected (c : Connection σ) : Connection σ := { c with state := .kConnected }

/-- `IsConnected`. -/
def isConnected (c : Connection σ) : Bool := decide (c.state = .kConnected)

variable (os : Os)

/-- `EventLoop::ModifyFd` for the descriptor. -/
def modifyFd (c : Connection σ) (events : Interest) : Connection σ :=
  if c.interest.isSome then
    { c with
      interest := if os.modify c.modifies then some events else c.interest
      modifies := c.modifies + 1 }
  else c

/-- The number of bytes a `Write` of `len` bytes accepts. -/
def acceptedBytes (r : WriteResult) (len : ℕ) : ℕ :=
  match r with
  | .accepted k => min (k + 1) len
  | .wouldBlock => 0
  | .error => 0

/-- `Write` of `data`, whose accepted bytes leave the front of the output buffer. -/
def writeOut (c : Connection σ) (data : Bytes) : Connection σ :=
  let n := acceptedBytes (os.write c.writes) data.length
  { c with
    writes := c.writes + 1
    outputBuffer := Buffer.retrieve c.outputBuffer n
    log := c.log ++ [.write (data.take n)] }

/-- What `Send` does before it tries to write. -/
def buffered (c : Connection σ) (sender : Option ℕ) (data : Bytes) : Connection σ :=
  { c with outputBuffer := Buffer.append c.outputBuffer data }.push (.send sender data)

/-- `Send`, executed in the loop's thread. -/
def send (c : Connection σ) (sender : Option ℕ) (data : Bytes) : Connection σ :=
  let c := c.buffered sender data
  -- written at once when the buffer holds what was just appended and no more
  let c :=
    if c.state = .kConnected ∧ c.outputBuffer.length = data.length then c.writeOut os data else c
  if 0 < c.outputBuffer.length then c.modifyFd os { epollOut := true } else c

/-- `Shutdown`. -/
def shutdown (c : Connection σ) : Connection σ :=
  if c.state = .kConnected then
    if c.outputBuffer.length = 0 then { c with state := .kDisconnecting }.push .shutdown
    else { c with state := .kDisconnecting }
  else c

/-- What `HandleClose` does before it calls back. -/
def closeFd (c : Connection σ) : Connection σ :=
  { c with
    state := .kDisconnected
    interest := none
    fd := -1
    log := c.log ++ .removeFd c.fd :: if 0 ≤ c.fd then [.close c.fd] else [] }

/-- A call made by the disconnect callback; the state is `kDisconnected`. -/
def callClosed (c : Connection σ) : ConnCall → Connection σ
  | .send data => c.send os none data
  | .shutdown => c.shutdown
  | .forceClose => c

variable (cb : Callbacks σ)

/-- `HandleClose`. -/
def handleClose (c : Connection σ) : Connection σ :=
  if c.state = .kDisconnected then c
  else
    match cb.disconnect with
    | none => c.closeFd
    | some f =>
        let (app, calls) := f c.app
        calls.foldl (callClosed os) ({ c.closeFd with app }.push .disconnectCallback)

/-- A call made by a protocol handler or a callback. -/
def call (c : Connection σ) : ConnCall → Connection σ
  | .send data => c.send os none data
  | .shutdown => c.shutdown
  | .forceClose => c.handleClose os cb

/-- Call `connect_callback_`, if there is one. -/
def notifyConnect (c : Connection σ) (success : Bool) : Connection σ :=
  match cb.connect with
  | none => c
  | some f =>
      let (app, calls) := f c.app success
      calls.foldl (call os cb) ({ c with app }.push (.connectCallback success))

/-- Call `message_callback_`, if there is one. -/
def notifyMessage (c : Connection σ) : Connection σ :=
  match cb.message with
  | none => c
  | some f =>
      let (app, inputBuffer, calls) := f c.app c.inputBuffer
      calls.foldl (call os cb) ({ c with app, inputBuffer }.push .messageCallback)

/-- `HandleError`. -/
def handleError (c : Connection σ) : Connection σ :=
  if c.state = .kDisconnected then c
  else if c.state = .kConnecting then (c.notifyConnect os cb false).handleClose os cb
  else c.handleClose os cb

/-- `Connect`; on a closed descriptor `connect` fails. -/
def connect (c : Connection σ) (r : ConnectResult) : Connection σ :=
  if c.fd < 0 then c
  else
    match r with
    | .invalid => c
    | .inProgress => { c with state := .kConnecting }
    | .done => ({ c with state := .kConnected } : Connection σ).notifyConnect os cb true

/-- The read loop of `HandleRead`. After the last result of the list, `read` would block. -/
def readLoop (c : Connection σ) : List ReadResult → Connection σ
  | [] => c
  | r :: rs =>
      -- a callback has closed the connection
      if c.state = .kDisconnected then c
      else
        match r with
        | .bytes data =>
            if data.length = 0 then (c.push (.read [])).handleClose os cb
            else
              readLoop
                (({ c with inputBuffer := Buffer.append c.inputBuffer data }.push
                  (.read data)).notifyMessage os cb) rs
        | .wouldBlock => c
        | .error => c.handleError os cb

/-- `HandleHandshake`; `HandleRead` finds the state just set. -/
def handleHandshake (c : Connection σ) (io : Io) : Connection σ :=
  match io.handshake with
  | .done => readLoop os cb { c with state := .kConnected } io.reads
  | .again => c
  | .error => c.handleError os cb

/-- `HandleRead`. -/
def handleRead (c : Connection σ) (io : Io) : Connection σ :=
  if c.state = .kDisconnected then c
  else if c.state = .kHandshaking then c.handleHandshake os cb io
  else c.readLoop os cb io.reads

/-- One turn of the write loop of `HandleWrite`. -/
def writeTurn (c : Connection σ) : Turn (Connection σ) :=
  if 0 < c.outputBuffer.length ∧ c.state ≠ .kDisconnected then
    match os.write c.writes with
    | .accepted _ => .again (c.writeOut os c.outputBuffer)
    | .wouldBlock => .leave (c.writeOut os c.outputBuffer)
    -- `HandleWrite` returns; falling through does the same, as the state is `kDisconnected`
    | .error => .leave ((c.writeOut os c.outputBuffer).handleError os cb)
  else .leave c

/-- The write loop of `HandleWrite`. -/
def writeLoop : Connection σ → Connection σ := run (writeTurn os cb) fun c => c.outputBuffer.length

/-- `HandleWrite` once the connect is over. -/
def flush (c : Connection σ) (io : Io) : Connection σ :=
  if c.state = .kHandshaking then c.handleHandshake os cb io
  else
    let c := c.writeLoop os cb
    if c.outputBuffer.length = 0 ∧ c.state ≠ .kDisconnected then c.modifyFd os {} else c

/-- `HandleWrite`. -/
def handleWrite (c : Connection σ) (io : Io) : Connection σ :=
  if c.state = .kDisconnected then c
  else if c.state = .kConnecting then
    if io.soError then c.handleError os cb
    else (({ c with state := .kConnected } : Connection σ).notifyConnect os cb true).flush os cb io
  else c.flush os cb io

/-- `SetSsl`. -/
def setSsl (c : Connection σ) (io : Io) : Connection σ :=
  ({ c with state := .kHandshaking } : Connection σ).handleHandshake os cb io

/-! ## What each primitive changes -/

@[simp] theorem push_state (c : Connection σ) (e : Effect) : (c.push e).state = c.state := rfl

@[simp] theorem push_fd (c : Connection σ) (e : Effect) : (c.push e).fd = c.fd := rfl

@[simp] theorem push_interest (c : Connection σ) (e : Effect) :
    (c.push e).interest = c.interest := rfl

@[simp] theorem push_inputBuffer (c : Connection σ) (e : Effect) :
    (c.push e).inputBuffer = c.inputBuffer := rfl

@[simp] theorem push_outputBuffer (c : Connection σ) (e : Effect) :
    (c.push e).outputBuffer = c.outputBuffer := rfl

@[simp] theorem push_log (c : Connection σ) (e : Effect) : (c.push e).log = c.log ++ [e] := rfl

/-- `ModifyFd` changes the registration only. -/
theorem modifyFd_eq (c : Connection σ) (events : Interest) :
    ∃ interest modifies, c.modifyFd os events = { c with interest, modifies } := by
  unfold modifyFd
  split
  · exact ⟨_, _, rfl⟩
  · exact ⟨_, _, rfl⟩

/-- **What `Send` does**: it buffers, may write from an empty buffer, and asks for `EPOLLOUT` when
something is left. -/
theorem send_cases (c : Connection σ) (sender : Option ℕ) (data : Bytes) :
    ∃ d : Connection σ,
      (d = c.buffered sender data ∨ c.state = .kConnected ∧ c.outputBuffer = [] ∧
        d = (c.buffered sender data).writeOut os data) ∧
      c.send os sender data
        = if 0 < d.outputBuffer.length then d.modifyFd os { epollOut := true } else d := by
  by_cases h : (c.buffered sender data).state = .kConnected ∧
      (c.buffered sender data).outputBuffer.length = data.length
  · refine ⟨(c.buffered sender data).writeOut os data, .inr ⟨h.1, ?_, rfl⟩, ?_⟩
    · have hlen := h.2
      simp only [buffered, push_outputBuffer, Buffer.append_eq, List.length_append] at hlen
      exact List.length_eq_zero_iff.mp (by omega)
    · simp only [send, if_pos h]
  · exact ⟨c.buffered sender data, .inl rfl, by simp only [send, if_neg h]⟩

/-- `Send` changes neither the state nor the descriptor. -/
theorem send_state (c : Connection σ) (sender : Option ℕ) (data : Bytes) :
    (c.send os sender data).state = c.state ∧ (c.send os sender data).fd = c.fd := by
  obtain ⟨d, hd, hsend⟩ := send_cases os c sender data
  have hstate : d.state = c.state ∧ d.fd = c.fd := by
    obtain rfl | ⟨-, -, rfl⟩ := hd
    · exact ⟨rfl, rfl⟩
    · exact ⟨rfl, rfl⟩
  rw [hsend]
  split
  · obtain ⟨_, _, hmodify⟩ := modifyFd_eq os d { epollOut := true }
    rw [hmodify]
    exact hstate
  · exact hstate

/-- `Send` records itself and at most one write. -/
theorem send_log (c : Connection σ) (sender : Option ℕ) (data : Bytes) :
    (c.send os sender data).inputBuffer = c.inputBuffer ∧
      ((c.send os sender data).log = c.log ++ [.send sender data] ∨ ∃ written,
        (c.send os sender data).log = c.log ++ [.send sender data, .write written]) := by
  obtain ⟨d, hd, hsend⟩ := send_cases os c sender data
  have hlog : d.inputBuffer = c.inputBuffer ∧ (d.log = c.log ++ [.send sender data] ∨
      ∃ written, d.log = c.log ++ [.send sender data, .write written]) := by
    obtain rfl | ⟨-, -, rfl⟩ := hd
    · exact ⟨rfl, .inl rfl⟩
    · exact ⟨rfl, .inr ⟨_, List.append_assoc ..⟩⟩
  rw [hsend]
  split
  · obtain ⟨_, _, hmodify⟩ := modifyFd_eq os d { epollOut := true }
    rw [hmodify]
    exact hlog
  · exact hlog

/-- `Shutdown` is for a connected connection. -/
theorem shutdown_cases (c : Connection σ) :
    c.shutdown = c ∨ c.state = .kConnected ∧
      (c.shutdown = { c with state := .kDisconnecting } ∨ c.outputBuffer = [] ∧
        c.shutdown = { c with state := .kDisconnecting }.push .shutdown) := by
  unfold shutdown
  split
  · next h =>
      split
      · next hlen => exact .inr ⟨h, .inr ⟨List.length_eq_zero_iff.mp hlen, rfl⟩⟩
      · exact .inr ⟨h, .inl rfl⟩
  · exact .inl rfl

end Connection

end NetworkLib
