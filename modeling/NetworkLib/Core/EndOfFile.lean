import NetworkLib.Theory.Trace
import NetworkLib.Core.ClientCallback
import NetworkLib.Protocols.TcpHandler

/-! # Received data at end of file

The read loop of a connection drains the socket before the protocol handler is called, and the
handler is called only if the connection is still connected then. Every byte read is offered before
the end of file exactly when the event that reads the end of file has read no data before it, and
the handler had not shut the connection down (`offered_at_eof_iff`). -/

namespace NetworkLib

variable {σ : Type*} {os : Os} {cb : Callbacks σ} {handler : OnMessage σ} {c c' : Connection σ}

namespace Connection

/-! ## What is read and what is offered -/

/-- The bytes read but not yet offered, after one more effect. `OnMessage` is offered what the
readable bytes it is given end with. -/
def offer (pending : Bytes) : Effect → Bytes
  | .read data => pending ++ data
  | .onMessage readable => if pending <:+ readable then [] else pending
  | _ => pending

/-- The bytes read that no `OnMessage` call has been offered. -/
def unoffered (log : List Effect) : Bytes := log.foldl offer []

/-- The effect is a read or a call of `OnMessage`. -/
def isInward : Effect → Bool
  | .read _ => true
  | .onMessage _ => true
  | _ => false

/-- The reads and the calls of `OnMessage`. -/
def inward (log : List Effect) : List Effect := log.filter isInward

/-- The data that one read loop takes. -/
def chunks : List ReadResult → Bytes
  | .bytes data :: rs => if data.length = 0 then [] else data ++ chunks rs
  | _ => []

/-- The result that ends a read loop. -/
def ending : List ReadResult → ReadResult
  | [] => .wouldBlock
  | .bytes data :: rs => if data.length = 0 then .bytes [] else ending rs
  | .wouldBlock :: _ => .wouldBlock
  | .error :: _ => .error

/-- The reads that one read loop makes. -/
def reads : List ReadResult → List Effect
  | .bytes data :: rs => if data.length = 0 then [.read []] else .read data :: reads rs
  | _ => []

/-- Only what comes in decides what has been offered. -/
theorem foldl_offer_inward (log : List Effect) (pending : Bytes) :
    (inward log).foldl offer pending = log.foldl offer pending := by
  induction log generalizing pending with
  | nil => rfl
  | cons e log ih =>
      cases e with
      | read data => exact ih _
      | onMessage readable => exact ih _
      | send sender data => exact ih _
      | write data => exact ih _
      | shutdown => exact ih _
      | removeFd fd => exact ih _
      | close fd => exact ih _
      | connectCallback success => exact ih _
      | messageCallback => exact ih _
      | disconnectCallback => exact ih _

/-- So it does what is still to be offered. -/
theorem unoffered_inward (log : List Effect) : unoffered (inward log) = unoffered log :=
  foldl_offer_inward log []

@[simp] theorem inward_append (log log' : List Effect) :
    inward (log ++ log') = inward log ++ inward log' := List.filter_append ..

/-- What is to be offered after some more effects. -/
theorem unoffered_append (log log' : List Effect) :
    unoffered (log ++ log') = log'.foldl offer (unoffered log) := List.foldl_append

/-- Reads add their bytes to what is to be offered. -/
theorem foldl_offer_reads (rs : List ReadResult) (pending : Bytes) :
    (reads rs).foldl offer pending = pending ++ chunks rs := by
  induction rs generalizing pending with
  | nil => simp [reads, chunks]
  | cons r rs ih =>
      cases r with
      | bytes data =>
          unfold reads chunks
          split
          · simp [offer]
          · rw [List.foldl_cons, ih, offer, List.append_assoc]
      | wouldBlock => simp [reads, chunks]
      | error => simp [reads, chunks]

/-- The end of file is read exactly when it ends the loop. -/
theorem eof_mem_reads (rs : List ReadResult) : .read [] ∈ reads rs ↔ ending rs = .bytes [] := by
  induction rs with
  | nil => simp [reads, ending]
  | cons r rs ih =>
      cases r with
      | bytes data =>
          unfold reads ending
          split
          · simp
          · next h =>
              have hne : data ≠ [] := fun hnil => h (by rw [hnil, List.length_nil])
              simp [ih, hne.symm]
      | wouldBlock => simp [reads, ending]
      | error => simp [reads, ending]

end Connection

namespace ClientEvent

open Connection

/-- The data an event reads. -/
def data (e : ClientEvent) : Bytes :=
  match e.input with
  | none => []
  | some io => chunks io.reads

/-- The event reads the end of file. -/
def ReadsEof (e : ClientEvent) : Prop := ∃ io, e.input = some io ∧ ending io.reads = .bytes []

/-- The event reads until reading would block. -/
def Drains (e : ClientEvent) : Prop := ∃ io, e.input = some io ∧ ending io.reads = .wouldBlock

instance (e : ClientEvent) : Decidable e.Drains :=
  match h : e.input with
  | none => isFalse fun ⟨_, hio, _⟩ => by rw [h] at hio; cases hio
  | some io => decidable_of_iff (ending io.reads = .wouldBlock)
      ⟨fun hd => ⟨io, h, hd⟩, fun ⟨_, hio, hd⟩ => by rw [h] at hio; cases hio; exact hd⟩

/-- The reads of an event. -/
def reads (e : ClientEvent) : List Effect :=
  match e.input with
  | none => []
  | some io => Connection.reads io.reads

/-- So do the reads of an event. -/
theorem foldl_offer_reads (e : ClientEvent) (pending : Bytes) :
    e.reads.foldl offer pending = pending ++ e.data := by
  unfold reads data
  split
  · rw [List.foldl_nil, List.append_nil]
  · exact Connection.foldl_offer_reads _ _

/-- The end of file is read exactly if the reads end with it. -/
theorem eof_mem_reads (e : ClientEvent) : .read [] ∈ e.reads ↔ e.ReadsEof := by
  unfold reads ReadsEof
  split
  · next h => simp [h]
  · next io h => simp [h, Connection.eof_mem_reads]

end ClientEvent

namespace Connection

/-! ## One event -/

/-- A move that sends, writes or closes leaves what was read alone. -/
theorem OutMove.inward (h : OutMove os c c') :
    inward c'.log = inward c.log ∧ c'.inputBuffer = c.inputBuffer := by
  -- One case for each move: none of them reads.
  cases h with
  | send data =>
      obtain ⟨hin, hlog | ⟨_, hlog⟩⟩ := send_log os c none data
      · rw [hlog, inward_append]
        exact ⟨List.append_nil _, hin⟩
      · rw [hlog, inward_append]
        exact ⟨List.append_nil _, hin⟩
  | shutdown =>
      obtain h | ⟨-, h | ⟨-, h⟩⟩ := shutdown_cases c
      · rw [h]
        exact ⟨rfl, rfl⟩
      · rw [h]
        exact ⟨rfl, rfl⟩
      · rw [h, push_log, inward_append]
        exact ⟨List.append_nil _, rfl⟩
  | close =>
      rw [closeFd, inward_append]
      refine ⟨?_, rfl⟩
      split <;> exact List.append_nil _
  | closeNotify =>
      rw [push_log, inward_append, closeFd, inward_append]
      refine ⟨?_, rfl⟩
      split <;> simp [Connection.inward, isInward]
  | write =>
      rw [writeOut, inward_append]
      exact ⟨List.append_nil _, rfl⟩
  | disarm =>
      obtain ⟨_, _, h⟩ := modifyFd_eq os c {}
      rw [h]
      exact ⟨rfl, rfl⟩

/-- What goes out leaves what has come in as it was. -/
theorem OutMoves.inward (h : OutMoves os c c') :
    Connection.inward c'.log = Connection.inward c.log ∧ c'.inputBuffer = c.inputBuffer := by
  refine invariant_of_moves (P := fun d => Connection.inward d.log = Connection.inward c.log ∧
    d.inputBuffer = c.inputBuffer) ?_ h ⟨rfl, rfl⟩
  intro a b hab ha
  exact ⟨(OutMove.inward hab).1.trans ha.1, (OutMove.inward hab).2.trans ha.2⟩

/-- **What the read loop does** without a message callback: it takes the data up to the first other
result, and disconnects unless that result is that reading would block. -/
theorem readLoop_spec (hm : cb.message = none) (hc : c.Settled) (hp : c.Paired)
    (hs : c.state ≠ .kDisconnected) (rs : List ReadResult) :
    inward (c.readLoop os cb rs).log = inward c.log ++ reads rs ∧
      (c.readLoop os cb rs).inputBuffer = c.inputBuffer ++ chunks rs ∧
      (c.readLoop os cb rs).state
        = if ending rs = .wouldBlock then c.state else .kDisconnected := by
  -- Induction on the results of `Read`; no callback runs, so only the log and the buffer grow.
  induction rs generalizing c with
  | nil => simp [readLoop, reads, chunks, ending]
  | cons r rs ih =>
      unfold readLoop
      rw [if_neg hs]
      cases r with
      | bytes data =>
          simp only [reads, chunks, ending]
          split
          · -- the end of file
            have hclose := OutMoves.inward (outMoves_handleClose os cb
              (c.push (.read [])))
            refine ⟨?_, ?_, ?_⟩
            · rw [hclose.1, push_log, inward_append]
              rfl
            · rw [hclose.2, push_inputBuffer, List.append_nil]
            · exact handleClose_state _
          · -- data, and no callback to offer it to
            have hnext : (({ c with inputBuffer := Buffer.append c.inputBuffer data }.push
                (.read data)).notifyMessage os cb)
                  = { c with inputBuffer := c.inputBuffer ++ data }.push (.read data) := by
              simp only [notifyMessage, hm, Buffer.append_eq]
            rw [hnext]
            obtain ⟨h1, h2, h3⟩ :=
              ih (c := { c with inputBuffer := c.inputBuffer ++ data }.push (.read data)) hc hp hs
            refine ⟨?_, ?_, h3⟩
            · rw [h1, push_log, inward_append, List.append_assoc]
              rfl
            · rw [h2, push_inputBuffer, List.append_assoc]
      | wouldBlock => simp [reads, chunks, ending]
      | error =>
          have herror := OutMoves.inward (outMoves_handleError os cb hc.1)
          simp [reads, chunks, ending, herror.1, herror.2, handleError_state]

/-- `OnMessage` offers the input buffer. -/
theorem onMessage_inward (c : Connection σ) :
    inward (c.onMessage os cb handler).log = inward c.log ++ [.onMessage c.inputBuffer] := by
  have hcalls := OutMoves.inward (outMoves_foldl (outMoves_call os cb)
    (handler c.app c.inputBuffer).2.2
    ({ c with
        app := (handler c.app c.inputBuffer).1
        inputBuffer := (handler c.app c.inputBuffer).2.1 }.push (.onMessage c.inputBuffer)))
  rw [push_log, inward_append] at hcalls
  exact hcalls.1

/-- What an `EPOLLIN` event records: the reads, and the call of `OnMessage` if the loop ends with
the connection connected. -/
theorem onReadable_inward (hm : cb.message = none) (hc : c.Settled) (hp : c.Paired)
    (hs : c.state ≠ .kDisconnected) (io : Io) :
    inward (c.onReadable os cb handler io).log = inward c.log ++ reads io.reads ++
      if c.state = .kConnected ∧ ending io.reads = .wouldBlock
      then [.onMessage (c.inputBuffer ++ chunks io.reads)] else [] := by
  have hread : c.handleRead os cb io = c.readLoop os cb io.reads := by
    rw [handleRead, if_neg hs, if_neg hc.2]
  obtain ⟨hlog, hbuf, hstate⟩ := readLoop_spec hm hc hp hs io.reads
  have hconn : (c.readLoop os cb io.reads).isConnected = true ↔
      c.state = .kConnected ∧ ending io.reads = .wouldBlock := by
    rw [isConnected, decide_eq_true_iff, hstate]
    split
    · next h => simp [h]
    · next h => simp [h]
  rw [onReadable, hread]
  by_cases h : c.state = .kConnected ∧ ending io.reads = .wouldBlock
  · rw [if_pos (hconn.mpr h), if_pos h, onMessage_inward, hlog, hbuf]
  · rw [if_neg (fun h' => h (hconn.mp h')), if_neg h, hlog, List.append_nil]

/-- **What an event records** on an open connection without a message callback. -/
theorem clientCallback_inward (hm : cb.message = none) (hc : c.Settled) (hp : c.Paired)
    (hs : c.state ≠ .kDisconnected) (e : ClientEvent) :
    inward (c.clientCallback os cb handler e).log = inward c.log ++ e.reads ++
      if c.state = .kConnected ∧ e.Drains then [.onMessage (c.inputBuffer ++ e.data)] else [] := by
  unfold clientCallback ClientEvent.reads ClientEvent.data ClientEvent.Drains
  split
  · next h =>
      rw [(OutMoves.inward (outMoves_onRest os cb hc e)).1]
      simp [h]
  · next io h =>
      have hread := plainMoves_onReadable os cb handler hc io
      rw [(OutMoves.inward (outMoves_onRest os cb (hread.settled hc) e)).1,
        onReadable_inward hm hc hp hs io]
      simp [h]

/-- What holds of an accepted connection after every event. What is not yet offered is the end of
the input buffer, and is never offered once the connection is not connected. -/
structure Offering (c : Connection σ) : Prop where
  settled : c.Settled
  paired : c.Paired
  suffix : unoffered c.log <:+ c.inputBuffer
  left : unoffered c.log ≠ [] → c.state ≠ .kConnected

variable (os handler) in
/-- An event that reads to a failure or the end of file disconnects. -/
theorem clientCallback_state (hm : cb.message = none) (hc : c.Settled) (hp : c.Paired)
    (hs : c.state ≠ .kDisconnected) {e : ClientEvent} {io : Io} (hio : e.input = some io)
    (hend : ending io.reads ≠ .wouldBlock) :
    (c.clientCallback os cb handler e).state = .kDisconnected := by
  have hread : c.handleRead os cb io = c.readLoop os cb io.reads := by
    rw [handleRead, if_neg hs, if_neg hc.2]
  have hstate : (c.readLoop os cb io.reads).state = .kDisconnected := by
    rw [(readLoop_spec hm hc hp hs io.reads).2.2, if_neg hend]
  have hreadable : c.onReadable os cb handler io = c.readLoop os cb io.reads := by
    rw [onReadable, hread, if_neg]
    simp [isConnected, hstate]
  rw [clientCallback, hio]
  simp only [hreadable]
  exact (moves_onRest os cb _ e).disconnected ((moves_readLoop os cb c io.reads).paired hp) hstate

/-- Where `OnMessage` is not called, the data read stays in the input buffer. -/
theorem clientCallback_inputBuffer (hm : cb.message = none) (hc : c.Settled) (hp : c.Paired)
    (hs : c.state ≠ .kDisconnected) {e : ClientEvent} (he : ¬ (c.state = .kConnected ∧ e.Drains)) :
    (c.clientCallback os cb handler e).inputBuffer = c.inputBuffer ++ e.data := by
  unfold clientCallback
  split
  · next hio => simp [(OutMoves.inward (outMoves_onRest os cb hc e)).2, ClientEvent.data, hio]
  · next io hio =>
      have hread : c.handleRead os cb io = c.readLoop os cb io.reads := by
        rw [handleRead, if_neg hs, if_neg hc.2]
      obtain ⟨-, hbuf, hstate⟩ := readLoop_spec hm hc hp hs io.reads
      have hnot : ¬ (c.readLoop os cb io.reads).isConnected = true := by
        rw [isConnected, decide_eq_true_iff, hstate]
        split
        · next hend => exact fun hconn => he ⟨hconn, io, hio, hend⟩
        · simp
      have hreadable : c.onReadable os cb handler io = c.readLoop os cb io.reads := by
        rw [onReadable, hread, if_neg hnot]
      have hsettled := (plainMoves_readLoop os cb hc io.reads).settled hc
      simp [hreadable, (OutMoves.inward (outMoves_onRest os cb hsettled e)).2, hbuf, ClientEvent.data, hio]

variable (os handler) in
/-- **What is left unoffered** by an event on an open connection. -/
theorem clientCallback_unoffered (hm : cb.message = none) (hc : c.Offering)
    (hs : c.state ≠ .kDisconnected) (e : ClientEvent) :
    unoffered (c.clientCallback os cb handler e).log
      = if c.state = .kConnected ∧ e.Drains then [] else unoffered c.log ++ e.data := by
  rw [← unoffered_inward, clientCallback_inward hm hc.settled hc.paired hs, unoffered_append,
    unoffered_append, unoffered_inward, e.foldl_offer_reads]
  split
  · have hsuffix : unoffered c.log ++ e.data <:+ c.inputBuffer ++ e.data := by
      obtain ⟨front, hfront⟩ := hc.suffix
      exact ⟨front, by rw [← List.append_assoc, hfront]⟩
    rw [List.foldl_cons, List.foldl_nil, offer, if_pos hsuffix]
  · rfl

/-- An event keeps the account of what is offered. -/
theorem Offering.clientCallback (hm : cb.message = none) (hc : c.Offering) (e : ClientEvent) :
    (c.clientCallback os cb handler e).Offering := by
  by_cases hs : c.state = .kDisconnected
  · rwa [clientCallback_of_disconnected hs]
  · have hmoves := plainMoves_clientCallback os cb handler hc.settled e
    have hunoffered := clientCallback_unoffered os handler hm hc hs e
    refine ⟨hmoves.settled hc.settled, hmoves.moves.paired hc.paired, ?_, ?_⟩
    -- what is offered is the buffer, which is then behind the others
    · by_cases he : c.state = .kConnected ∧ e.Drains
      · rw [hunoffered, if_pos he]
        exact List.nil_suffix
      · rw [hunoffered, if_neg he, clientCallback_inputBuffer hm hc.settled hc.paired hs he]
        obtain ⟨front, hfront⟩ := hc.suffix
        exact ⟨front, by rw [← List.append_assoc, hfront]⟩
    · intro hne
      by_cases hconn : c.state = .kConnected
      · -- the data was read up to a failure or the end of file
        have hnot : ¬ e.Drains := fun hd => hne (by rw [hunoffered, if_pos ⟨hconn, hd⟩])
        have hdata : e.data ≠ [] := by
          rw [hunoffered, if_neg (fun h => hnot h.2)] at hne
          have hnil : unoffered c.log = [] := by
            by_contra hleft
            exact hc.left hleft hconn
          simpa [hnil] using hne
        obtain ⟨io, hio⟩ : ∃ io, e.input = some io := by
          cases hin : e.input with
          | none => simp [ClientEvent.data, hin] at hdata
          | some io => exact ⟨io, rfl⟩
        have hend : ending io.reads ≠ .wouldBlock := fun hend => hnot ⟨io, hio, hend⟩
        rw [clientCallback_state os handler hm hc.settled hc.paired hs hio hend]
        simp
      · exact hmoves.not_connected hconn

/-! ## Runs -/

variable (os handler) in
/-- A run of an accepted connection. -/
def serve (c : Connection σ) (es : List ClientEvent) : Connection σ :=
  Trace.run (clientCallback os serverCallbacks handler) c es

/-- An event that reads data finds the connection connected. -/
def FoundConnected (c : Connection σ) (e : ClientEvent) : Prop :=
  e.data ≠ [] → c.state = .kConnected

/-- A connection just accepted has nothing to offer. -/
theorem offering_accepted (fd : ℕ) (app : σ) : (accepted fd app).Offering :=
  ⟨accepted_settled fd app, accepted_paired fd app, List.nil_suffix, fun h => absurd rfl h⟩

variable (os handler) in
/-- The account is kept along some events. -/
theorem offering_serve (hc : c.Offering) (es : List ClientEvent) :
    (c.serve os handler es).Offering :=
  Trace.run_preserves (fun _ e h => h.clientCallback rfl e) hc es

theorem serve_cons (c : Connection σ) (e : ClientEvent) (es : List ClientEvent) :
    c.serve os handler (e :: es)
      = (c.clientCallback os serverCallbacks handler e).serve os handler es := rfl

/-- Some events after others. -/
theorem serve_append (c : Connection σ) (es es' : List ClientEvent) :
    c.serve os handler (es ++ es') = (c.serve os handler es).serve os handler es' :=
  Trace.run_append c es es'

/-- No event reaches a disconnected connection. -/
theorem serve_of_disconnected (hs : c.state = .kDisconnected) (es : List ClientEvent) :
    c.serve os handler es = c := by
  induction es with
  | nil => rfl
  | cons e es ih =>
      rw [serve, Trace.run_cons, clientCallback_of_disconnected hs]
      exact ih

/-- The last event comes after all the others. -/
theorem serve_snoc (c : Connection σ) (es : List ClientEvent) (e : ClientEvent) :
    c.serve os handler (es ++ [e])
      = (c.serve os handler es).clientCallback os serverCallbacks handler e :=
  serve_append c es [e]

/-- One more event, after which the connection is still open. -/
theorem unoffered_snoc_eq_nil_iff (hc : c.Offering) (hs : c.state ≠ .kDisconnected)
    {e : ClientEvent}
    (hopen : (c.clientCallback os serverCallbacks handler e).state ≠ .kDisconnected) :
    unoffered (c.clientCallback os serverCallbacks handler e).log = [] ↔
      unoffered c.log = [] ∧ c.FoundConnected e := by
  rw [clientCallback_unoffered os handler rfl hc hs]
  by_cases hconn : c.state = .kConnected
  · have hnil : unoffered c.log = [] := by
      by_contra hleft
      exact hc.left hleft hconn
    refine iff_of_true ?_ ⟨hnil, fun _ => hconn⟩
    by_cases hd : e.Drains
    · rw [if_pos ⟨hconn, hd⟩]
    · rw [if_neg (fun h => hd h.2), hnil, List.nil_append, ClientEvent.data]
      split
      · rfl
      · next io hio =>
          -- reading on to a failure or the end of file would have closed it
          have hend : ending io.reads ≠ .wouldBlock := fun hend => hd ⟨io, hio, hend⟩
          exact absurd (clientCallback_state os handler rfl hc.settled hc.paired hs hio hend) hopen
  · rw [if_neg (fun h => hconn h.1), List.append_eq_nil_iff]
    refine and_congr_right fun _ => ⟨fun hdata hne => absurd hdata hne, fun hfound => ?_⟩
    by_contra hne
    exact hconn (hfound hne)

/-- **Before the end of file**: as long as the connection is open, everything read has been offered
exactly if every event that read data found it connected. -/
theorem unoffered_serve_eq_nil_iff (hc : c.Offering) (hleft : unoffered c.log = [])
    (es : List ClientEvent) (hopen : (c.serve os handler es).state ≠ .kDisconnected) :
    unoffered (c.serve os handler es).log = [] ↔
      Trace.Always (clientCallback os serverCallbacks handler) FoundConnected c es := by
  induction es using List.reverseRecOn with
  | nil => simp [serve, hleft]
  | append_singleton es e ih =>
      rw [serve_snoc] at hopen ⊢
      have hs : (c.serve os handler es).state ≠ .kDisconnected := by
        intro hs
        rw [clientCallback_of_disconnected hs] at hopen
        exact hopen hs
      rw [unoffered_snoc_eq_nil_iff (offering_serve os handler hc es) hs hopen, ih hs,
        Trace.always_append,
        Trace.always_cons]
      exact and_congr_right fun _ => (and_iff_left trivial).symm

/-- The end of file is something that comes in. -/
theorem eof_mem_inward (log : List Effect) : .read [] ∈ inward log ↔ .read [] ∈ log := by
  simp [inward, isInward]

variable (os handler) in
/-- The end of file is read by an event that brings it, and by no other. -/
theorem eof_mem_clientCallback (hc : c.Offering) (hs : c.state ≠ .kDisconnected)
    (e : ClientEvent) :
    .read [] ∈ (c.clientCallback os serverCallbacks handler e).log ↔
      .read [] ∈ c.log ∨ e.ReadsEof := by
  rw [← eof_mem_inward, clientCallback_inward rfl hc.settled hc.paired hs, List.mem_append,
    List.mem_append, eof_mem_inward, e.eof_mem_reads]
  refine or_iff_left ?_
  split <;> simp

variable (os handler) in
/-- Reading the end of file disconnects. -/
theorem disconnects_of_readsEof (hc : c.Offering) (hs : c.state ≠ .kDisconnected)
    {e : ClientEvent} (he : e.ReadsEof) :
    ¬ e.Drains ∧ (c.clientCallback os serverCallbacks handler e).state = .kDisconnected := by
  obtain ⟨io, hio, hend⟩ := he
  refine ⟨?_, clientCallback_state os handler rfl hc.settled hc.paired hs hio (by simp [hend])⟩
  rintro ⟨io', hio', hend'⟩
  rw [hio, Option.some_inj] at hio'
  rw [← hio', hend] at hend'
  cases hend'

/-- The end of file is read by an event that finds the connection open. -/
theorem eof_mem_serve_iff (hc : c.Offering) (hlog : .read [] ∉ c.log) (es : List ClientEvent) :
    .read [] ∈ (c.serve os handler es).log ↔ ∃ pre e post, es = pre ++ e :: post ∧
      (c.serve os handler pre).state ≠ .kDisconnected ∧ e.ReadsEof := by
  induction es generalizing c with
  | nil => simpa [serve] using hlog
  | cons e es ih =>
      by_cases hs : c.state = .kDisconnected
      · simp [serve_of_disconnected hs, hlog, hs]
      · have hmem := eof_mem_clientCallback os handler hc hs e
        by_cases he : e.ReadsEof
        · have hclosed := (disconnects_of_readsEof os handler hc hs he).2
          refine iff_of_true ?_ ⟨[], e, es, rfl, hs, he⟩
          rw [serve_cons, serve_of_disconnected hclosed]
          exact hmem.mpr (.inr he)
        · have hnext : Offering (c.clientCallback os serverCallbacks handler e) :=
            hc.clientCallback rfl e
          rw [serve_cons, ih hnext fun h => (hmem.mp h).elim hlog he]
          constructor
          · rintro ⟨pre, e', post, rfl, hopen, he'⟩
            exact ⟨e :: pre, e', post, rfl, hopen, he'⟩
          · rintro ⟨pre, e', post, heq, hopen, he'⟩
            cases pre with
            | nil =>
                obtain ⟨rfl, -⟩ := List.cons.inj heq
                exact absurd he' he
            | cons e'' pre =>
                obtain ⟨rfl, rfl⟩ := List.cons.inj heq
                exact ⟨pre, e', post, rfl, hopen, he'⟩

/-- **At the end of file**: the event that reads it must have read nothing before. -/
theorem unoffered_serve_eof (hc : c.Offering) (hleft : unoffered c.log = [])
    {pre : List ClientEvent} {e : ClientEvent} (post : List ClientEvent)
    (hopen : (c.serve os handler pre).state ≠ .kDisconnected) (heof : e.ReadsEof) :
    unoffered (c.serve os handler (pre ++ e :: post)).log = [] ↔ e.data = [] ∧
      Trace.Always (clientCallback os serverCallbacks handler) FoundConnected c pre := by
  have hd := offering_serve os handler hc pre
  obtain ⟨hnot, hclosed⟩ := disconnects_of_readsEof os handler hd hopen heof
  rw [serve_append, serve_cons, serve_of_disconnected hclosed,
    clientCallback_unoffered os handler rfl hd hopen, if_neg (fun h => hnot h.2),
    List.append_eq_nil_iff, unoffered_serve_eq_nil_iff hc hleft pre hopen, and_comm]

/-- **Received data at end of file.** In a run of an accepted plain connection, over any results of
its reads grouped into any events, every byte read before the end of file has been offered to
`OnMessage` exactly if the event that reads the end of file reads no data before it and every
earlier event that reads data finds the connection connected. -/
theorem offered_at_eof_iff (os : Os) (handler : OnMessage σ) (fd : ℕ) (app : σ)
    (es : List ClientEvent) :
    let c := accepted fd app
    (.read [] ∈ (c.serve os handler es).log → unoffered (c.serve os handler es).log = []) ↔
      ∀ pre e post, es = pre ++ e :: post →
        (c.serve os handler pre).state ≠ .kDisconnected → e.ReadsEof →
          e.data = [] ∧
            Trace.Always (clientCallback os serverCallbacks handler) FoundConnected c pre := by
  have hc := offering_accepted fd app
  constructor
  · rintro h pre e post rfl hopen heof
    rw [← unoffered_serve_eof hc rfl post hopen heof]
    exact h ((eof_mem_serve_iff hc (by simp [accepted, setConnected]) _).mpr
      ⟨pre, e, post, rfl, hopen, heof⟩)
  · intro h heof
    obtain ⟨pre, e, post, rfl, hopen, he⟩ :=
      (eof_mem_serve_iff hc (by simp [accepted, setConnected]) _).mp heof
    exact (unoffered_serve_eof hc rfl post hopen he).mpr (h pre e post rfl hopen he)

/-- **A request and the end of file in one event.** The frame is read and never offered, and nothing
is dispatched; read in an event of its own, the same frame is. -/
theorem offered_at_eof_fails_on_frame_then_eof :
    let os : Os := { write := fun _ => .accepted 100, modify := fun _ => true }
    let handler : OnMessage (Session ℕ) := .ofSession (TcpHandler.onMessage Protobuf.shortPayload
      { streamHandler := some fun n _ resp => { app := n + 1, resp } })
    let frame : Bytes := [0, 0, 0, 5, 0x12, 3, 0x1A, 1, 7]
    let c := accepted 5 ({ app := 0 } : Session ℕ)
    let together := c.serve os handler [{ input := some { reads := [.bytes frame, .bytes []] } }]
    let apart := c.serve os handler [{ input := some { reads := [.bytes frame] } },
      { input := some { reads := [.bytes []] } }]
    (.read [] ∈ together.log ∧ unoffered together.log = frame ∧ together.app.dispatched = []) ∧
      unoffered apart.log = [] ∧ apart.app.dispatched = [{ payload := some { data := [7] } }] := by
  decide

end Connection

end NetworkLib
