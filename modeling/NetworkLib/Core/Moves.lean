import Mathlib.Logic.Relation
import NetworkLib.Core.Connection

/-! # What a connection does, move by move

Every operation of a connection is a sequence of moves. An `OutMove` sends, writes or closes, a
`PlainMove` may read as well, and a `Move` may connect or finish a handshake besides. Each carries
what is known when it is made, so that an invariant of a connection is checked once against the
moves and then holds of all operations. -/

namespace NetworkLib.Connection

open Loop Relation

variable {σ : Type*} {os : Os} {cb : Callbacks σ} {c c' : Connection σ}

/-- A move that sends, in the loop's own name, or writes or closes. -/
inductive OutMove (os : Os) : Connection σ → Connection σ → Prop where
  | send (c : Connection σ) (data : Bytes) : OutMove os c (c.send os none data)
  | shutdown (c : Connection σ) : OutMove os c c.shutdown
  | close {c : Connection σ} (h : c.state ≠ .kDisconnected) : OutMove os c c.closeFd
  | closeNotify {c : Connection σ} (h : c.state ≠ .kDisconnected) (app : σ) :
      OutMove os c ({ c.closeFd with app }.push .disconnectCallback)
  | write {c : Connection σ} (h : c.outputBuffer ≠ []) (hs : c.state ≠ .kDisconnected) :
      OutMove os c (c.writeOut os c.outputBuffer)
  | disarm {c : Connection σ} (h : c.outputBuffer = []) (hs : c.state ≠ .kDisconnected) :
      OutMove os c (c.modifyFd os {})

/-- A move of a connection that is neither connecting nor in a handshake. -/
inductive PlainMove (os : Os) : Connection σ → Connection σ → Prop where
  | out {c c' : Connection σ} (h : OutMove os c c') : PlainMove os c c'
  | read {c : Connection σ} (hs : c.state ≠ .kDisconnected) {data : Bytes} (h : data ≠ []) :
      PlainMove os c ({ c with inputBuffer := c.inputBuffer ++ data }.push (.read data))
  | eof {c : Connection σ} (hs : c.state ≠ .kDisconnected) : PlainMove os c (c.push (.read []))
  | messageCallback {c : Connection σ} (hs : c.state ≠ .kDisconnected) (app : σ)
      (inputBuffer : Buffer) : PlainMove os c ({ c with app, inputBuffer }.push .messageCallback)
  | onMessage {c : Connection σ} (hs : c.state = .kConnected) (app : σ) (inputBuffer : Buffer) :
      PlainMove os c ({ c with app, inputBuffer }.push (.onMessage c.inputBuffer))

/-- A move. -/
inductive Move (os : Os) : Connection σ → Connection σ → Prop where
  | plain {c c' : Connection σ} (h : PlainMove os c c') : Move os c c'
  | connecting {c : Connection σ} (h : 0 ≤ c.fd) : Move os c { c with state := .kConnecting }
  | connected {c : Connection σ} (h : 0 ≤ c.fd ∨ c.state ≠ .kDisconnected) :
      Move os c { c with state := .kConnected }
  | connectCallback (c : Connection σ) (app : σ) (success : Bool) :
      Move os c ({ c with app }.push (.connectCallback success))

/-- Moves one after another that send, write or close. -/
abbrev OutMoves (os : Os) : Connection σ → Connection σ → Prop := ReflTransGen (OutMove os)

/-- Moves one after another of a connection neither connecting nor in a handshake. -/
abbrev PlainMoves (os : Os) : Connection σ → Connection σ → Prop := ReflTransGen (PlainMove os)

/-- Moves one after another. -/
abbrev Moves (os : Os) : Connection σ → Connection σ → Prop := ReflTransGen (Move os)

/-- Moves that go out are plain. -/
theorem OutMoves.plain (h : OutMoves os c c') : PlainMoves os c c' :=
  ReflTransGen.mono (fun _ _ => PlainMove.out) _ _ h

/-- Plain moves are moves. -/
theorem PlainMoves.moves (h : PlainMoves os c c') : Moves os c c' :=
  ReflTransGen.mono (fun _ _ => Move.plain) _ _ h

/-- So are moves that go out. -/
theorem OutMoves.moves (h : OutMoves os c c') : Moves os c c' := h.plain.moves

/-- **Rule of invariants.** What every move preserves, moves one after another preserve. -/
theorem invariant_of_moves {α : Type*} {r : α → α → Prop} {P : α → Prop} {a b : α}
    (hstep : ∀ a b, r a b → P a → P b) (h : ReflTransGen r a b) (ha : P a) : P b := by
  induction h with
  | refl => exact ha
  | tail _ hbc ih => exact hstep _ _ hbc ih

/-- Actions that make moves going out, one after another. -/
theorem outMoves_foldl {α : Type*} {f : Connection σ → α → Connection σ}
    (hf : ∀ c x, OutMoves os c (f c x)) (xs : List α) (c : Connection σ) :
    OutMoves os c (xs.foldl f c) := by
  induction xs generalizing c with
  | nil => exact .refl
  | cons x xs ih => exact (hf c x).trans (ih (f c x))

variable (os cb)

/-- A call on a closed connection goes out. -/
theorem outMoves_callClosed (c : Connection σ) (x : ConnCall) : OutMoves os c (c.callClosed os x) := by
  cases x with
  | send data => exact .single (.send c data)
  | shutdown => exact .single (.shutdown c)
  | forceClose => exact .refl

/-- So does `HandleClose`. -/
theorem outMoves_handleClose (c : Connection σ) : OutMoves os c (c.handleClose os cb) := by
  unfold handleClose
  split
  · exact .refl
  · next h =>
      split
      · exact .single (.close h)
      · exact .head (.closeNotify h _) (outMoves_foldl (outMoves_callClosed os) _ _)

/-- So does any call. -/
theorem outMoves_call (c : Connection σ) (x : ConnCall) : OutMoves os c (c.call os cb x) := by
  cases x with
  | send data => exact .single (.send c data)
  | shutdown => exact .single (.shutdown c)
  | forceClose => exact outMoves_handleClose os cb c

/-- The message callback makes plain moves. -/
theorem plainMoves_notifyMessage {c : Connection σ} (hs : c.state ≠ .kDisconnected) :
    PlainMoves os c (c.notifyMessage os cb) := by
  unfold notifyMessage
  split
  · exact .refl
  · exact .head (.messageCallback hs _ _) (outMoves_foldl (outMoves_call os cb) _ _).plain

/-- The connect callback makes moves. -/
theorem moves_notifyConnect (c : Connection σ) (success : Bool) :
    Moves os c (c.notifyConnect os cb success) := by
  unfold notifyConnect
  split
  · exact .refl
  · exact .head (.connectCallback c _ success) (outMoves_foldl (outMoves_call os cb) _ _).moves

/-- So does `HandleError`. -/
theorem moves_handleError (c : Connection σ) : Moves os c (c.handleError os cb) := by
  unfold handleError
  split
  · exact .refl
  · split
    · exact (moves_notifyConnect os cb c false).trans (outMoves_handleClose os cb _).moves
    · exact (outMoves_handleClose os cb c).moves

/-- Unless the connection is connecting, `HandleError` goes out. -/
theorem outMoves_handleError {c : Connection σ} (h : c.state ≠ .kConnecting) :
    OutMoves os c (c.handleError os cb) := by
  unfold handleError
  rw [if_neg h]
  split
  · exact .refl
  · exact outMoves_handleClose os cb c

/-- `Connect` makes moves. -/
theorem moves_connect (c : Connection σ) (r : ConnectResult) : Moves os c (c.connect os cb r) := by
  unfold connect
  split
  · exact .refl
  · next h =>
      cases r with
      | invalid => exact .refl
      | inProgress => exact .single (.connecting (not_lt.mp h))
      | done => exact .head (.connected (.inl (not_lt.mp h))) (moves_notifyConnect os cb _ true)

/-! ## The two loops -/

variable {os cb}

/-- The read loop consists of plain moves and what an error brings. -/
theorem readLoop_moves {r : Connection σ → Connection σ → Prop} {P : Connection σ → Prop}
    (hr : ∀ c c', PlainMove os c c' → r c c') (hP : ∀ c c', PlainMove os c c' → P c → P c')
    (herror : ∀ c, P c → ReflTransGen r c (c.handleError os cb)) {c : Connection σ} (hc : P c)
    (rs : List ReadResult) : ReflTransGen r c (c.readLoop os cb rs) := by
  -- Induction on the results of `Read`; `P` holds before each.
  induction rs generalizing c with
  | nil => exact .refl
  | cons x rs ih =>
      unfold readLoop
      split
      · exact .refl
      · next hs =>
          cases x with
          | bytes data =>
              simp only
              split
              · exact .head (hr _ _ (.eof hs))
                  (ReflTransGen.mono hr _ _ (outMoves_handleClose os cb _).plain)
              · next h =>
                  have hread : PlainMove os c _ := .read hs
                    (List.ne_nil_of_length_pos (Nat.pos_of_ne_zero h))
                  have hs' : ({ c with inputBuffer := c.inputBuffer ++ data }.push
                      (.read data)).state ≠ .kDisconnected := hs
                  have hmessage := plainMoves_notifyMessage os cb hs'
                  exact .head (hr _ _ hread) ((ReflTransGen.mono hr _ _ hmessage).trans
                    (ih (invariant_of_moves hP hmessage (hP _ _ hread hc))))
          | wouldBlock => exact .refl
          | error => exact herror c hc

/-- A turn of the write loop that goes round has written something. -/
theorem writeTurn_rank (c c' : Connection σ) (h : writeTurn os cb c = .again c') :
    c'.outputBuffer.length < c.outputBuffer.length := by
  unfold writeTurn at h
  split at h
  · next hc =>
      split at h
      · next k hk =>
          cases h
          simp only [writeOut, Buffer.retrieve_eq_drop, List.length_drop, hk, acceptedBytes]
          omega
      · cases h
      · cases h
  · cases h

/-- The write loop consists of writes and what an error brings. -/
theorem writeLoop_moves {r : Connection σ → Connection σ → Prop} {P : Connection σ → Prop}
    (hr : ∀ c c', OutMove os c c' → r c c') (hP : ∀ c c', OutMove os c c' → P c → P c')
    (herror : ∀ c, P c → ReflTransGen r c (c.handleError os cb)) {c : Connection σ} (hc : P c) :
    ReflTransGen r c (c.writeLoop os cb) := by
  have hwrite {c : Connection σ} (h : 0 < c.outputBuffer.length ∧ c.state ≠ .kDisconnected) :
      OutMove os c (c.writeOut os c.outputBuffer) := .write (List.length_pos_iff.mp h.1) h.2
  -- What holds before each turn of the loop: the moves so far, and `P`.
  refine run_induction (P := fun d => ReflTransGen r c d ∧ P d) (Q := ReflTransGen r c) _
    writeTurn_rank ?_ ?_ c ⟨.refl, hc⟩
  · rintro s t ⟨hs, hPs⟩ h
    unfold writeTurn at h
    split at h
    · next hlen =>
        split at h
        · cases h
          exact ⟨hs.tail (hr _ _ (hwrite hlen)), hP _ _ (hwrite hlen) hPs⟩
        · cases h
        · cases h
    · cases h
  · rintro s t ⟨hs, hPs⟩ h
    unfold writeTurn at h
    split at h
    · next hlen =>
        have hs' := hs.tail (hr _ _ (hwrite hlen))
        split at h
        · cases h
        · cases h
          exact hs'
        · cases h
          exact hs'.trans (herror _ (hP _ _ (hwrite hlen) hPs))
    · cases h
      exact hs

/-- The last test of `HandleWrite` consists of the write loop and the end of `EPOLLOUT`. -/
theorem flush_moves {r : Connection σ → Connection σ → Prop}
    (hr : ∀ c c', OutMove os c c' → r c c') {c : Connection σ} (hs : c.state ≠ .kHandshaking)
    (h : ReflTransGen r c (c.writeLoop os cb)) (io : Io) :
    ReflTransGen r c (c.flush os cb io) := by
  unfold flush
  rw [if_neg hs]
  simp only
  split
  · next hc => exact h.tail (hr _ _ (.disarm (List.length_eq_zero_iff.mp hc.1) hc.2))
  · exact h

/-! ## Connections in any state -/

variable (os cb)

/-- So does the loop of reads. -/
theorem moves_readLoop (c : Connection σ) (rs : List ReadResult) :
    Moves os c (c.readLoop os cb rs) :=
  readLoop_moves (P := fun _ => True) (fun _ _ => .plain) (fun _ _ _ => id)
    (fun c _ => moves_handleError os cb c) trivial rs

/-- So does a handshake. -/
theorem moves_handleHandshake {c : Connection σ} (hs : c.state ≠ .kDisconnected) (io : Io) :
    Moves os c (c.handleHandshake os cb io) := by
  unfold handleHandshake
  split
  · exact .head (.connected (.inr hs)) (moves_readLoop os cb _ _)
  · exact .refl
  · exact moves_handleError os cb c

/-- So does `HandleRead`. -/
theorem moves_handleRead (c : Connection σ) (io : Io) : Moves os c (c.handleRead os cb io) := by
  unfold handleRead
  split
  · exact .refl
  · next hs =>
      split
      · exact moves_handleHandshake os cb hs io
      · exact moves_readLoop os cb c _

/-- So does writing what is buffered. -/
theorem moves_flush (c : Connection σ) (io : Io) : Moves os c (c.flush os cb io) := by
  by_cases h : c.state = .kHandshaking
  · rw [flush, if_pos h]
    exact moves_handleHandshake os cb (by rw [h]; simp) io
  · exact flush_moves (fun _ _ h => .plain (.out h)) h
      (writeLoop_moves (P := fun _ => True) (fun _ _ h => .plain (.out h)) (fun _ _ _ => id)
        (fun c _ => moves_handleError os cb c) trivial) io

/-- So does `HandleWrite`. -/
theorem moves_handleWrite (c : Connection σ) (io : Io) : Moves os c (c.handleWrite os cb io) := by
  unfold handleWrite
  split
  · exact .refl
  · next hs =>
      split
      · split
        · exact moves_handleError os cb c
        · exact .head (.connected (.inr hs))
            ((moves_notifyConnect os cb _ true).trans (moves_flush os cb _ io))
      · exact moves_flush os cb c io

/-- So does `SetSSL`. -/
theorem moves_setSsl (c : Connection σ) (io : Io) :
    Moves os ({ c with state := .kHandshaking } : Connection σ) (c.setSsl os cb io) :=
  moves_handleHandshake os cb (by simp) io

/-! ## The state and the descriptor -/

variable {os cb}

/-- **What a plain move does to the state**: nothing, or it begins the shutdown of a connected
connection, or it disconnects for good. -/
theorem PlainMove.state_cases (h : PlainMove os c c') :
    c'.state = c.state ∧ c'.fd = c.fd ∨
      c.state = .kConnected ∧ c'.state = .kDisconnecting ∧ c'.fd = c.fd ∨
        c.state ≠ .kDisconnected ∧ c'.state = .kDisconnected ∧ c'.fd = -1 := by
  -- Only `Shutdown` and closing change the state.
  cases h with
  | out h =>
      cases h with
      | send data => exact .inl (send_state os c none data)
      | shutdown =>
          obtain h | ⟨hs, h | ⟨-, h⟩⟩ := shutdown_cases c
          · rw [h]
            exact .inl ⟨rfl, rfl⟩
          · rw [h]
            exact .inr (.inl ⟨hs, rfl, rfl⟩)
          · rw [h]
            exact .inr (.inl ⟨hs, rfl, rfl⟩)
      | close hs => exact .inr (.inr ⟨hs, rfl, rfl⟩)
      | closeNotify hs app => exact .inr (.inr ⟨hs, rfl, rfl⟩)
      | write => exact .inl ⟨rfl, rfl⟩
      | disarm =>
          obtain ⟨_, _, h⟩ := modifyFd_eq os c {}
          rw [h]
          exact .inl ⟨rfl, rfl⟩
  | read => exact .inl ⟨rfl, rfl⟩
  | eof => exact .inl ⟨rfl, rfl⟩
  | messageCallback => exact .inl ⟨rfl, rfl⟩
  | onMessage => exact .inl ⟨rfl, rfl⟩

/-- The descriptor is open exactly while the connection is not disconnected. -/
def Paired (c : Connection σ) : Prop := 0 ≤ c.fd ↔ c.state ≠ .kDisconnected

/-- A move keeps the descriptor open exactly while the connection is not disconnected. -/
theorem Move.paired (h : Move os c c') (hc : c.Paired) : c'.Paired := by
  cases h with
  | plain h =>
      unfold Paired at hc ⊢
      obtain ⟨hs, hfd⟩ | ⟨hs, hs', hfd⟩ | ⟨-, hs', hfd⟩ := h.state_cases
      · rwa [hs, hfd]
      · rw [hs', hfd, hc, hs]
        simp
      · rw [hs', hfd]
        simp
  | connecting h => exact iff_of_true h (by simp)
  | connected h => exact iff_of_true (h.elim id hc.mpr) (by simp)
  | connectCallback => exact hc

/-- **Disconnected is final**: no move leaves it. -/
theorem Move.disconnected (h : Move os c c') (hc : c.Paired ∧ c.state = .kDisconnected) :
    c'.Paired ∧ c'.state = .kDisconnected := by
  refine ⟨h.paired hc.1, ?_⟩
  have hfd : ¬ 0 ≤ c.fd := fun hfd => hc.1.mp hfd hc.2
  cases h with
  | plain h =>
      obtain ⟨hs, -⟩ | ⟨hs, -⟩ | ⟨hs, -⟩ := h.state_cases
      · rw [hs, hc.2]
      · rw [hc.2] at hs
        cases hs
      · exact absurd hc.2 hs
  | connecting h => exact absurd h hfd
  | connected h => exact absurd hc.2 (h.elim (absurd · hfd) id)
  | connectCallback => exact hc.2

/-- So do some moves. -/
theorem Moves.paired (h : Moves os c c') (hc : c.Paired) : c'.Paired :=
  invariant_of_moves (fun _ _ => Move.paired) h hc

/-- A disconnected connection stays so. -/
theorem Moves.disconnected (h : Moves os c c') (hc : c.Paired) (hs : c.state = .kDisconnected) :
    c'.state = .kDisconnected :=
  (invariant_of_moves (P := fun d => d.Paired ∧ d.state = .kDisconnected)
    (fun _ _ => Move.disconnected) h ⟨hc, hs⟩).2

/-- `HandleClose` disconnects. -/
theorem handleClose_state (c : Connection σ) :
    (c.handleClose os cb).state = .kDisconnected := by
  unfold handleClose
  split
  · next h => exact h
  · split
    · rfl
    · next f _ =>
        have hclosed : Paired ({ c.closeFd with app := (f c.app).1 }.push .disconnectCallback) := by
          simp [Paired, closeFd]
        exact Moves.disconnected (outMoves_foldl (outMoves_callClosed os) _ _).moves hclosed rfl

/-- `HandleError` disconnects. -/
theorem handleError_state (c : Connection σ) :
    (c.handleError os cb).state = .kDisconnected := by
  unfold handleError
  split
  · next h => exact h
  · split
    · exact handleClose_state _
    · exact handleClose_state c

/-! ## Connections neither connecting nor in a handshake -/

/-- The connection neither connects nor is in a handshake. -/
def Settled (c : Connection σ) : Prop := c.state ≠ .kConnecting ∧ c.state ≠ .kHandshaking

/-- A plain move starts neither a connect nor a handshake. -/
theorem PlainMove.settled (h : PlainMove os c c') (hc : c.Settled) : c'.Settled := by
  unfold Settled at hc ⊢
  obtain ⟨hs, -⟩ | ⟨-, hs', -⟩ | ⟨-, hs', -⟩ := h.state_cases
  · rwa [hs]
  · rw [hs']
    simp
  · rw [hs']
    simp

/-- Nor do some plain moves. -/
theorem PlainMoves.settled (h : PlainMoves os c c') (hc : c.Settled) : c'.Settled :=
  invariant_of_moves (fun _ _ => PlainMove.settled) h hc

/-- A settled connection that is no longer connected does not become so again. -/
theorem PlainMoves.not_connected (h : PlainMoves os c c') (hc : c.state ≠ .kConnected) :
    c'.state ≠ .kConnected := by
  refine invariant_of_moves (P := fun d => d.state ≠ .kConnected) ?_ h hc
  intro a b hab ha
  obtain ⟨hs, -⟩ | ⟨hs, -⟩ | ⟨-, hs', -⟩ := hab.state_cases
  · rwa [hs]
  · exact absurd hs ha
  · rw [hs']
    simp

variable (os cb)

/-- The loop of reads makes plain moves on a settled connection. -/
theorem plainMoves_readLoop {c : Connection σ} (hc : c.Settled) (rs : List ReadResult) :
    PlainMoves os c (c.readLoop os cb rs) :=
  readLoop_moves (fun _ _ => id) (fun _ _ => PlainMove.settled)
    (fun _ hd => (outMoves_handleError os cb hd.1).plain) hc rs

/-- So does `HandleRead`. -/
theorem plainMoves_handleRead {c : Connection σ} (hc : c.Settled) (io : Io) :
    PlainMoves os c (c.handleRead os cb io) := by
  unfold handleRead
  rw [if_neg hc.2]
  split
  · exact .refl
  · exact plainMoves_readLoop os cb hc _

/-- On a settled connection, writing what is buffered goes out. -/
theorem outMoves_flush {c : Connection σ} (hc : c.Settled) (io : Io) :
    OutMoves os c (c.flush os cb io) :=
  flush_moves (fun _ _ => id) hc.2
    (writeLoop_moves (fun _ _ => id) (fun _ _ h => PlainMove.settled (.out h))
      (fun _ hd => outMoves_handleError os cb hd.1) hc) io

/-- So does `HandleWrite`. -/
theorem outMoves_handleWrite {c : Connection σ} (hc : c.Settled) (io : Io) :
    OutMoves os c (c.handleWrite os cb io) := by
  unfold handleWrite
  rw [if_neg hc.1]
  split
  · exact .refl
  · exact outMoves_flush os cb hc io

end NetworkLib.Connection
