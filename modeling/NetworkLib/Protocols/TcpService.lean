import NetworkLib.Protocols.TcpFraming
import NetworkLib.Theory.ServiceRuns

/-! # A TCP server and its clients

`TcpHandler` serves all connections of a listener on one thread, and every connection has a
`TcpClientProtocol` at its other end. The stream handler may differ between connections in the
context it is given; its state and the rate limiter are shared. What other threads write to the
contexts is posted to the loop. A step at the wire level is one turn of one of the two `while`
loops, or some bytes arriving, so that the system is a service over byte streams (`carries`). -/

namespace NetworkLib

open Loop LengthPrefix Service

namespace TcpService

variable {ι σ τ π : Type*}

/-- A message that both decoders take: it parses again, and is not larger than their bound. -/
def Fits (pb : Protobuf) (m : StreamEnvelope) : Prop :=
  pb.RoundTrips m ∧ (pb.serializeAsString m).length ≤ TcpHandler.maxLength

instance (pb : Protobuf) (m : StreamEnvelope) : Decidable (Fits pb m) :=
  inferInstanceAs (Decidable (_ ∧ _))

/-- The envelope that a context call writes, if it writes one. -/
def written : ContextCall → Option StreamEnvelope
  | .write msg => some msg
  | .writeString _ => none
  | .close => none

/-- Application code that acts on its context by writing envelopes alone, and does not throw. -/
structure WritesOnly (f : StreamHandler σ) : Prop where
  noThrow : f.NoThrow
  isWrite : ∀ app req resp, ∀ call ∈ (f app req resp).calls, ∃ msg, call = .write msg

section Answers

variable (pb : Protobuf)

/-- The messages that are sent: those whose serialisation is not empty. -/
def sendable (msgs : List StreamEnvelope) : List StreamEnvelope :=
  msgs.filter fun e => pb.serializeAsString e ≠ []

/-- How a request is answered on a connection with the handler `h`: with what the stream handler has
written and its response, or with the echo where no stream handler is set. -/
def answer (h : ProtocolHandler σ) (app : σ) (req : StreamEnvelope) : σ × List StreamEnvelope :=
  match h.streamHandler with
  | some f =>
      let run := f app req (TcpHandler.skeleton req)
      (run.app, sendable pb (run.calls.filterMap written ++ [run.resp]))
  | none => (app, sendable pb [{ TcpHandler.skeleton req with payload := req.payload }])

/-- How a request is served by the handler `h`: the limiter is asked first, and a request it refuses
is not answered. -/
def serve (h : ProtocolHandler σ) (r : σ × ℕ) (req : StreamEnvelope) :
    (σ × ℕ) × List StreamEnvelope :=
  if h.checkRateLimit r.2 then
    (((answer pb h r.1 req).1, r.2 + 1), (answer pb h r.1 req).2)
  else ((r.1, r.2 + 1), [])

variable (h : ι → ProtocolHandler σ) (pub : σ → π → List (ι × StreamEnvelope))
  (g : MessageHandler τ)

/-- The service at the message level. Its state is that of the application, with the number of times
that the rate limiter was asked. -/
def protocol : Protocol ι (σ × ℕ) (ClientSession τ) StreamEnvelope StreamEnvelope π where
  serve r i req := serve pb (h i) r req
  publish r p := (pub r.1 p).filter fun t => pb.serializeAsString t.2 ≠ []
  hear c msg := { c with thrown := none }.deliver (some g) msg

/-- The service at the wire level: `TcpClientProtocol::Send`, a turn of `TcpHandler::OnMessage`,
`TcpStreamContext::Write`, and a turn of `TcpClientProtocol::OnDataReceived`. -/
def code : Code ι (σ × ℕ) (ClientSession τ) StreamEnvelope π UInt8 where
  send req := sentBytes (TcpClientProtocol.send pb req)
  serverTurn i r buf :=
    match TcpHandler.turn pb (h i) ({ app := r.1, consumed := r.2 }, buf) with
    | .again (s, rest) => some (((s.app, s.consumed), sentBytes s.calls), rest)
    | .leave _ => none
  publish r p := (pub r.1 p).flatMap fun t =>
    (TcpStreamContext.onConn pb (.write t.2)).map fun call => (t.1, call.bytes)
  clientTurn c buf :=
    match TcpClientProtocol.turn pb (some g) (c, buf) with
    | .again (c, rest) => some (c, rest)
    | .leave _ => none

/-- The requests that are carried: the request fits, and so do all answers to it. -/
def Good (req : StreamEnvelope) : Prop :=
  Fits pb req ∧ ∀ app i, ∀ e ∈ (answer pb (h i) app req).2, Fits pb e

/-- The publications that are carried. -/
def Sound (p : π) : Prop := ∀ app, ∀ t ∈ pub app p, Fits pb t.2

end Answers

/-! ## What is written for an answer -/

variable {pb : Protobuf} {h : ι → ProtocolHandler σ} {pub : σ → π → List (ι × StreamEnvelope)}
  {g : MessageHandler τ}

/-- The frame of an envelope. -/
def wire (pb : Protobuf) (e : StreamEnvelope) : Bytes := frame (pb.serializeAsString e)

/-- What can be sent, of some messages and of more behind them. -/
theorem sendable_append (msgs msgs' : List StreamEnvelope) :
    sendable pb (msgs ++ msgs') = sendable pb msgs ++ sendable pb msgs' := List.filter_append ..

/-- A write sends the frame of the envelope, if it is sent at all. -/
theorem sentBytes_write (e : StreamEnvelope) :
    sentBytes (TcpStreamContext.onConn pb (.write e)) = (sendable pb [e]).flatMap (wire pb) := by
  by_cases he : pb.serializeAsString e = []
  · simp [TcpStreamContext.onConn, sendable, he, sentBytes]
  · have hone : ∀ e' ∈ [e], pb.serializeAsString e' ≠ [] := by simpa using he
    have hsent := TcpStreamContext.sentBytes_write hone
    simpa [sendable, he, wire, frames] using hsent

/-- The response is sent like a write. -/
theorem respond_eq_write (e : StreamEnvelope) :
    sentBytes (TcpHandler.respond pb e) = sentBytes (TcpStreamContext.onConn pb (.write e)) := by
  by_cases he : pb.serializeAsString e = []
  · simp [TcpHandler.respond, TcpStreamContext.onConn, he]
  · have hpos : 0 < (pb.serializeAsString e).length := List.length_pos_iff.mpr he
    simp [TcpHandler.respond, TcpStreamContext.onConn, he, hpos]

/-- What is written for the calls of application code that writes envelopes alone. -/
theorem sentBytes_calls {calls : List ContextCall}
    (hcalls : ∀ call ∈ calls, ∃ msg, call = .write msg) :
    sentBytes (calls.flatMap (TcpStreamContext.onConn pb))
      = (sendable pb (calls.filterMap written)).flatMap (wire pb) := by
  induction calls with
  | nil => rfl
  | cons call calls ih =>
      obtain ⟨msg, rfl⟩ := hcalls call List.mem_cons_self
      have hsplit : sendable pb (msg :: calls.filterMap written)
          = sendable pb [msg] ++ sendable pb (calls.filterMap written) :=
        sendable_append [msg] _
      rw [List.flatMap_cons, sentBytes_append, sentBytes_write,
        ih fun call hcall => hcalls call (List.mem_cons_of_mem _ hcall),
        List.filterMap_cons_some (show written (.write msg) = some msg from rfl), hsplit,
        List.flatMap_append]

/-- **A frame is served as the protocol says**: the state afterwards, and what is written. -/
theorem serve_fresh {h : ProtocolHandler σ} (hwrites : ∀ f, h.streamHandler = some f → WritesOnly f)
    {req : StreamEnvelope} (hreq : pb.RoundTrips req) (r : σ × ℕ) :
    let s := TcpHandler.serve pb h { app := r.1, consumed := r.2 } (pb.serializeAsString req)
    (s.app, s.consumed) = (serve pb h r req).1 ∧
      sentBytes s.calls = (serve pb h r req).2.flatMap (wire pb) ∧ s.thrown = none := by
  intro s
  have hparse : pb.parseFromString (pb.serializeAsString req) = some req := hreq
  by_cases hallowed : h.checkRateLimit r.2
  · cases hf : h.streamHandler with
    | some f =>
        have hnt := (hwrites f hf).noThrow r.1 req (TcpHandler.skeleton req)
        have hcalls : sentBytes (((f r.1 req (TcpHandler.skeleton req)).calls).flatMap
              (TcpStreamContext.onConn pb)) = _ :=
          sentBytes_calls ((hwrites f hf).isWrite r.1 req (TcpHandler.skeleton req))
        simp only [s, serve, TcpHandler.serve, TcpHandler.process, hallowed, if_true,
          hparse, hf, answer, Session.invoke, Session.consume, hnt, Session.push]
        refine ⟨trivial, ?_, trivial⟩
        rw [List.nil_append, sentBytes_append, hcalls, respond_eq_write, sentBytes_write,
          sendable_append, List.flatMap_append]
    | none =>
        simp only [s, serve, TcpHandler.serve, TcpHandler.process, hallowed, if_true,
          hparse, hf, answer, Session.consume, Session.push]
        refine ⟨trivial, ?_, trivial⟩
        rw [List.nil_append, respond_eq_write, sentBytes_write]
  · simp only [s, serve, TcpHandler.serve, hallowed]
    exact ⟨rfl, rfl, rfl⟩

/-! ## The two readers -/

/-- A turn of the handler that goes on is a turn of the service. -/
theorem serverTurn_of_again {i : ι} {r : σ × ℕ} {buf : Bytes} {s : Session σ} {rest : Bytes}
    (hturn : TcpHandler.turn pb (h i) ({ app := r.1, consumed := r.2 }, buf) = .again (s, rest)) :
    (code pb h pub g).serverTurn i r buf
      = some (((s.app, s.consumed), sentBytes s.calls), rest) := by
  simp only [code, hturn]

/-- A turn of the handler that leaves is none. -/
theorem serverTurn_of_leave {i : ι} {r : σ × ℕ} {buf : Bytes} {p : Session σ × Buffer}
    (hturn : TcpHandler.turn pb (h i) ({ app := r.1, consumed := r.2 }, buf) = .leave p) :
    (code pb h pub g).serverTurn i r buf = none := by
  simp only [code, hturn]

/-- A turn of the client that goes on is a turn of the service. -/
theorem clientTurn_of_again {c c' : ClientSession τ} {buf rest : Bytes}
    (hturn : TcpClientProtocol.turn pb (some g) (c, buf) = .again (c', rest)) :
    (code pb h pub g).clientTurn c buf = some (c', rest) := by
  simp only [code, hturn]

/-- A turn of the client that leaves is none. -/
theorem clientTurn_of_leave {c : ClientSession τ} {buf : Bytes} {p : ClientSession τ × Buffer}
    (hturn : TcpClientProtocol.turn pb (some g) (c, buf) = .leave p) :
    (code pb h pub g).clientTurn c buf = none := by
  simp only [code, hturn]

/-- A turn of the server's loop reads a whole request, serves it and writes the answers, or waits.
-/
theorem server_reads (i : ι) (hwrites : ∀ f, (h i).streamHandler = some f → WritesOnly f) :
    Reads (code pb h pub g).send (Good pb h)
      (fun r req => (((protocol pb h pub g).serve r i req).1,
        ((protocol pb h pub g).serve r i req).2.flatMap (wire pb)))
      ((code pb h pub g).serverTurn i) := by
  have hlimit : TcpHandler.maxLength < 2 ^ 32 := by decide
  have hsend : ∀ req, (code pb h pub g).send req = frame (pb.serializeAsString req) :=
    fun req => NetworkLib.sentBytes_send _
  refine ⟨fun r req rest hgood => ?_, fun r req bs hgood hbs hne => ?_, fun r => ?_⟩
  · obtain ⟨hstate, hwritten, hthrown⟩ := serve_fresh hwrites hgood.1.1 r
    have hturn : TcpHandler.turn pb (h i)
        ({ app := r.1, consumed := r.2 }, frame (pb.serializeAsString req) ++ rest)
        = .again (TcpHandler.serve pb (h i) { app := r.1, consumed := r.2 }
            (pb.serializeAsString req), rest) := by
      rw [TcpHandler.turn_eq]
      exact frameTurn_frame hlimit hgood.1.2 (by simp [hthrown]) rest
    rw [hsend, serverTurn_of_again hturn, hstate, hwritten]
    rfl
  -- a part of a frame is left in the buffer
  · rw [hsend] at hbs hne
    refine serverTurn_of_leave (p := ({ app := r.1, consumed := r.2 }, bs)) ?_
    rw [TcpHandler.turn_eq]
    exact frameTurn_part hlimit hgood.1.2 hbs hne
  · refine serverTurn_of_leave (p := ({ app := r.1, consumed := r.2 }, [])) ?_
    rw [TcpHandler.turn_eq]
    exact frameTurn_of_short (by simp)

/-- A turn of the client's loop reads a whole message and hands it over, or waits. -/
theorem client_reads (hg : MessageHandler.NoThrow g) :
    Reads (wire pb) (Fits pb) (protocol pb h pub g).hear (code pb h pub g).clientTurn := by
  have hlimit : TcpClientProtocol.maxLength < 2 ^ 32 := by decide
  refine ⟨fun c msg rest hfits => ?_, fun c msg bs hfits hbs hne => ?_, fun c => ?_⟩
  · have hparse : pb.parseFromString (pb.serializeAsString msg) = some msg := hfits.1
    have hthrown :
        (TcpClientProtocol.process pb (some g) c (pb.serializeAsString msg)).thrown = none :=
      TcpClientProtocol.process_thrown hg c _
    have hturn : TcpClientProtocol.turn pb (some g) (c, frame (pb.serializeAsString msg) ++ rest)
        = .again (TcpClientProtocol.process pb (some g) c (pb.serializeAsString msg), rest) := by
      rw [TcpClientProtocol.turn_eq]
      exact frameTurn_frame hlimit hfits.2 (by simp [hthrown]) rest
    rw [wire, clientTurn_of_again hturn, TcpClientProtocol.process, hparse]
    rfl
  · refine clientTurn_of_leave (p := (c, bs)) ?_
    rw [TcpClientProtocol.turn_eq]
    exact frameTurn_part hlimit hfits.2 hbs hne
  · refine clientTurn_of_leave (p := (c, [])) ?_
    rw [TcpClientProtocol.turn_eq]
    exact frameTurn_of_short (by simp)

/-- **TCP carries the messages of the service.** -/
theorem carries (hwrites : ∀ i f, (h i).streamHandler = some f → WritesOnly f)
    (hg : MessageHandler.NoThrow g) :
    Carries (protocol pb h pub g) (code pb h pub g) (wire pb) (Good pb h) (Fits pb)
      (Sound pb pub) where
  server i := server_reads i (hwrites i)
  client := client_reads hg
  publish_eq r p := by
    simp only [code, protocol]
    induction pub r.1 p with
    | nil => rfl
    | cons t ts ih =>
        rw [List.flatMap_cons, ih]
        by_cases ht : pb.serializeAsString t.2 = []
        · simp [TcpStreamContext.onConn, ht]
        · simp [TcpStreamContext.onConn, ht, wire, frame, ConnCall.bytes]
  serve_fits r i req hgood e he := by
    simp only [protocol, serve] at he
    split at he
    · exact hgood.2 r.1 i e he
    · cases he
  publish_fits r p hsound t ht := hsound r.1 t (List.mem_of_mem_filter ht)

/-- The client logs what it hears. -/
theorem hear_delivered (c : ClientSession τ) (msg : StreamEnvelope) :
    ((protocol pb h pub g).hear c msg).delivered = c.delivered ++ [msg] := rfl

/-! ## Calls and turns

An `OnMessage` call is a sequence of turns, and the turn after the last one waits. -/

/-- Serving a frame changes a session as it changes a fresh one: what was written before stays in
front. -/
theorem serve_session (h : ProtocolHandler σ) (s : Session σ) (data : Bytes) :
    let t := TcpHandler.serve pb h { app := s.app, consumed := s.consumed } data
    let s' := TcpHandler.serve pb h s data
    s'.app = t.app ∧ s'.consumed = t.consumed ∧ s'.calls = s.calls ++ t.calls := by
  simp only [TcpHandler.serve]
  split
  · simp only [TcpHandler.process, Session.consume]
    cases pb.parseFromString data with
    | none => simp
    | some req =>
        cases h.streamHandler with
        | none => simp [Session.push]
        | some f =>
            simp only [Session.invoke]
            split <;> simp [Session.push]
  · simp [Session.consume]

/-- **A turn does with a session what it does with a fresh one.** -/
theorem turn_session {h : ProtocolHandler σ} (hnt : h.NoThrow) {s : Session σ}
    (hs : s.thrown = none) (buf : Bytes) :
    (∃ t s' rest,
        TcpHandler.turn pb h ({ app := s.app, consumed := s.consumed }, buf) = .again (t, rest) ∧
        TcpHandler.turn pb h (s, buf) = .again (s', rest) ∧ s'.thrown = none ∧
        s'.app = t.app ∧ s'.consumed = t.consumed ∧ s'.calls = s.calls ++ t.calls) ∨
      ∃ p s', TcpHandler.turn pb h ({ app := s.app, consumed := s.consumed }, buf) = .leave p ∧
        TcpHandler.turn pb h (s, buf) = .leave (s', buf) ∧
        s'.app = s.app ∧ s'.consumed = s.consumed ∧ sentBytes s'.calls = sentBytes s.calls := by
  -- A turn takes a whole frame, or meets a length above the maximum, or has too few bytes.
  have hserved : ∀ s : Session σ, s.thrown = none → ∀ data,
      (TcpHandler.serve pb h s data).thrown = none := by
    intro s hs data
    cases hf : h.streamHandler with
    | some f => exact TcpHandler.serve_thrown hf (hnt f hf) hs data
    | none =>
        simp only [TcpHandler.serve, TcpHandler.process, hf]
        split
        · split <;> rfl
        · exact hs
  rw [TcpHandler.turn_eq]
  by_cases h4 : 4 ≤ buf.length
  · by_cases hmax : announced buf ≤ TcpHandler.maxLength
    · rw [frameTurn_of_header h4 hmax, frameTurn_of_header h4 hmax]
      by_cases hwhole : 4 + announced buf ≤ buf.length
      · -- a whole frame is served, and nothing is thrown
        obtain ⟨happ, hconsumed, hcalls⟩ :=
          @serve_session _ pb h s ((buf.drop 4).take (announced buf))
        rw [if_pos hwhole, if_pos hwhole]
        simp only [hserved s hs, hserved { app := s.app, consumed := s.consumed } rfl,
          Option.isSome_none, Bool.and_false, Bool.false_eq_true, if_false]
        exact .inl ⟨_, _, _, rfl, rfl, hserved s hs _, happ, hconsumed, hcalls⟩
      -- the frame is not complete yet
      · rw [if_neg hwhole, if_neg hwhole]
        exact .inr ⟨_, _, rfl, rfl, rfl, rfl, rfl⟩
    · -- the connection is closed, and nothing is written
      rw [frameTurn_of_oversized h4 (Nat.lt_of_not_le hmax),
        frameTurn_of_oversized h4 (Nat.lt_of_not_le hmax)]
      exact .inr ⟨_, _, rfl, rfl, rfl, rfl, by simp [Session.push, sentBytes, ConnCall.bytes]⟩
  · rw [frameTurn_of_short (Nat.lt_of_not_le h4), frameTurn_of_short (Nat.lt_of_not_le h4)]
    exact .inr ⟨_, _, rfl, rfl, rfl, rfl, rfl⟩

/-- The loop of `OnMessage`, from any session, as turns at the wire level. -/
theorem run_turns [DecidableEq ι] {i : ι} (hnt : (h i).NoThrow)
    (w : Wires ι (σ × ℕ) (ClientSession τ) UInt8) {s : Session σ} (hs : s.thrown = none)
    (hstate : w.app = (s.app, s.consumed)) :
    ∃ n written, let w' := Trace.run (Wires.step (code pb h pub g)) w (List.replicate n (.turn i))
      let q := Loop.run (TcpHandler.turn pb (h i)) (fun p => p.2.length) (s, (w.link i).arrived)
      w'.app = (q.1.app, q.1.consumed) ∧ (w'.link i).arrived = q.2 ∧
        (w'.link i).toClient = (w.link i).toClient ++ written ∧
        sentBytes q.1.calls = sentBytes s.calls ++ written ∧
        (code pb h pub g).serverTurn i w'.app (w'.link i).arrived = none := by
  -- Induction on the bytes that have arrived: each turn of the loop takes some of them.
  induction hlen : (w.link i).arrived.length using Nat.strongRecOn generalizing w s with
  | ind len ih =>
      rcases turn_session hnt hs (w.link i).arrived with
        ⟨t, s', rest, hfresh, hturn, hs', happ, hconsumed, hcalls⟩ |
        ⟨p, s', hfresh, hturn, happ, hconsumed, hcalls⟩
      · -- one turn, and then those of the rest
        have hserver : (code pb h pub g).serverTurn i w.app (w.link i).arrived
            = some (((t.app, t.consumed), sentBytes t.calls), rest) := by
          rw [hstate]
          exact serverTurn_of_again hfresh
        set w₁ := w.step (code pb h pub g) (.turn i) with hw₁
        rw [Wires.step, hserver] at hw₁
        have hlink : w₁.link i = { w.link i with
            arrived := rest
            toClient := (w.link i).toClient ++ sentBytes t.calls } := by
          rw [hw₁]
          exact Function.update_self ..
        have hshorter := TcpHandler.turn_rank _ _ hturn
        obtain ⟨n, written, happ', harrived, htoClient, hsent, hwaits⟩ :=
          ih rest.length (by rw [← hlen]; exact hshorter) w₁ hs'
            (by rw [hw₁, happ, hconsumed]) (by rw [hlink])
        rw [hlink] at happ' harrived htoClient hsent
        refine ⟨n + 1, sentBytes t.calls ++ written, ?_⟩
        rw [List.replicate_succ, Trace.run_cons, Loop.run_of_again _ TcpHandler.turn_rank hturn]
        refine ⟨happ', harrived, ?_, ?_, hwaits⟩
        · rw [htoClient, List.append_assoc]
        · rw [hsent, hcalls, sentBytes_append, List.append_assoc]
      -- the loop is left, and the service waits
      · have hserver : (code pb h pub g).serverTurn i w.app (w.link i).arrived = none := by
          rw [hstate]
          exact serverTurn_of_leave hfresh
        refine ⟨0, [], ?_⟩
        rw [List.replicate_zero, Trace.run_nil, Loop.run_of_leave _ hturn]
        exact ⟨by rw [hstate, happ, hconsumed], rfl, (List.append_nil _).symm,
          by rw [hcalls, List.append_nil], hserver⟩

/-- **An `OnMessage` call is a sequence of turns at the wire level**, after which the service waits
on this connection. -/
theorem onMessage_turns [DecidableEq ι] {i : ι} (hnt : (h i).NoThrow)
    (hraw : (h i).rawHandler = none) (w : Wires ι (σ × ℕ) (ClientSession τ) UInt8) :
    ∃ n, let w' := Trace.run (Wires.step (code pb h pub g)) w (List.replicate n (.turn i))
      let q := TcpHandler.onMessage pb (h i)
        ({ app := w.app.1, consumed := w.app.2 }, (w.link i).arrived)
      w'.app = (q.1.app, q.1.consumed) ∧ (w'.link i).arrived = q.2 ∧
        (w'.link i).toClient = (w.link i).toClient ++ sentBytes q.1.calls ∧
        (code pb h pub g).serverTurn i w'.app (w'.link i).arrived = none := by
  obtain ⟨n, written, happ, harrived, htoClient, hsent, hwaits⟩ :=
    run_turns hnt w (s := { app := w.app.1, consumed := w.app.2 }) rfl rfl
  refine ⟨n, ?_⟩
  simp only [TcpHandler.onMessage, hraw]
  refine ⟨happ, harrived, ?_, hwaits⟩
  rw [htoClient, hsent]
  rfl

/-! ## The clients -/

/-- **The clients of a TCP server see a sequential machine.** In every run, whatever the
interleaving of the connections, the cutting of the byte streams and the writes of other threads,
there is an order of service in which each client's part is a front of what it has sent. The state
of the application and the number of questions to the rate limiter are those this order leads to.
Each message that a client has been handed answers one of its requests, in the state that the
requests before it have led to, or was written by another thread. When nothing is on its way to the
server and it waits, all requests are served. An `OnMessage` call in the state reached is a sequence
of turns, so that the run goes on with them. -/
theorem linearised [DecidableEq ι]
    (hwrites : ∀ i f, (h i).streamHandler = some f → WritesOnly f) (hg : MessageHandler.NoThrow g)
    (app : σ) (client : ι → ClientSession τ) (hclient : ∀ i, (client i).delivered = [])
    {es : List (Event ι StreamEnvelope π)}
    (hes : ∀ input ∈ es.flatMap Event.input, input.Carried (Good pb h) (Sound pb pub)) :
    let w := Trace.run (Wires.step (code pb h pub g)) (.start (app, 0) client) es
    (∃ served : List (ι × StreamEnvelope),
      w.app = served.foldl (fun r t => (serve pb (h t.1) r t.2).1) (app, 0) ∧
      ∀ i, partFor i served <+: requestsOf i (es.flatMap Event.input) ∧
        ((w.link i).toServer = [] →
          (code pb h pub g).serverTurn i w.app (w.link i).arrived = none →
          partFor i served = requestsOf i (es.flatMap Event.input)) ∧
        ∀ msg ∈ (w.link i).client.delivered,
          (∃ before req rest, served = before ++ (i, req) :: rest ∧
            msg ∈ (serve pb (h i)
              (before.foldl (fun r t => (serve pb (h t.1) r t.2).1) (app, 0)) req).2) ∨
          (i, msg) ∈
            (Wires.start (app, 0) client).posted (protocol pb h pub g) (code pb h pub g) es) ∧
    ∀ i, (h i).rawHandler = none → ∃ n,
      let w' := Trace.run (Wires.step (code pb h pub g)) w (List.replicate n (.turn i))
      let q := TcpHandler.onMessage pb (h i)
        ({ app := w.app.1, consumed := w.app.2 }, (w.link i).arrived)
      w'.app = (q.1.app, q.1.consumed) ∧ (w'.link i).arrived = q.2 ∧
        (w'.link i).toClient = (w.link i).toClient ++ sentBytes q.1.calls ∧
        (code pb h pub g).serverTurn i w'.app (w'.link i).arrived = none := by
  intro w
  refine ⟨wires_linearised (carries hwrites hg) hear_delivered (app, 0) client hclient hes,
    fun i hraw => ?_⟩
  have hnt : (h i).NoThrow := fun f hf => (hwrites i f hf).noThrow
  exact onMessage_turns hnt hraw w

/-- Two clients of a server that echoes, one of which is written to by another thread. -/
theorem linearised_echo :
    let pb := Protobuf.shortPayload
    let h : Bool → ProtocolHandler Unit := fun _ => {}
    let pub : Unit → StreamEnvelope → List (Bool × StreamEnvelope) := fun _ msg => [(true, msg)]
    let msg : StreamEnvelope := { payload := some { data := [7] } }
    let es : List (Event Bool StreamEnvelope StreamEnvelope) :=
      [.request false msg, .arrive false 6, .publish msg, .arrive false 3, .turn false, .task,
        .request true msg, .arrive true 5, .receive false 9, .clientTurn false]
    let C := code pb h pub ignore
    let w := Trace.run (Wires.step C) (.start ((), 0) fun _ => { app := () }) es
    (∃ served : List (Bool × StreamEnvelope),
      w.app = served.foldl (fun r t => (serve pb (h t.1) r t.2).1) ((), 0) ∧
      ∀ i, partFor i served <+: requestsOf i (es.flatMap Event.input) ∧
        ((w.link i).toServer = [] → C.serverTurn i w.app (w.link i).arrived = none →
          partFor i served = requestsOf i (es.flatMap Event.input)) ∧
        ∀ msg ∈ (w.link i).client.delivered,
          (∃ before req rest, served = before ++ (i, req) :: rest ∧
            msg ∈ (serve pb (h i)
              (before.foldl (fun r t => (serve pb (h t.1) r t.2).1) ((), 0)) req).2) ∨
          (i, msg) ∈ (Wires.start ((), 0) fun _ => { app := () }).posted
            (protocol pb h pub ignore) C es) ∧
    ∀ i, (h i).rawHandler = none → ∃ n,
      let w' := Trace.run (Wires.step C) w (List.replicate n (.turn i))
      let q := TcpHandler.onMessage pb (h i)
        ({ app := w.app.1, consumed := w.app.2 }, (w.link i).arrived)
      w'.app = (q.1.app, q.1.consumed) ∧ (w'.link i).arrived = q.2 ∧
        (w'.link i).toClient = (w.link i).toClient ++ sentBytes q.1.calls ∧
        C.serverTurn i w'.app (w'.link i).arrived = none := by
  intro pb h pub msg es
  have hfits : Fits pb msg := by decide
  have hgood : Good pb h msg := by
    refine ⟨hfits, fun app i e he => ?_⟩
    -- without a stream handler the answer is the echo
    have hecho : (answer pb (h i) app msg).2 = [msg] := by
      cases app
      decide +revert
    rw [hecho] at he
    rwa [List.mem_singleton.mp he]
  -- what is published is the message itself
  have hsound : Sound pb pub msg := by
    intro app t ht
    rwa [List.mem_singleton.mp ht]
  have hes : ∀ input ∈ es.flatMap Event.input, input.Carried (Good pb h) (Sound pb pub) := by
    refine carried_of_events (fun i m hm => ?_) fun p hp => ?_
    · simp only [es, List.mem_cons, Event.request.injEq, List.not_mem_nil, or_false, false_or,
        reduceCtorEq] at hm
      rcases hm with ⟨-, rfl⟩ | ⟨-, rfl⟩
      · exact hgood
      · exact hgood
    · simp only [es, List.mem_cons, Event.publish.injEq, List.not_mem_nil, or_false, false_or,
        reduceCtorEq] at hp
      rw [hp]
      exact hsound
  have hwrites : ∀ i f, (h i).streamHandler = some f → WritesOnly f := by
    intro i f hf
    cases hf
  exact linearised hwrites noThrow_ignore () (fun _ => { app := () }) (fun _ => rfl) hes

end TcpService

end NetworkLib
