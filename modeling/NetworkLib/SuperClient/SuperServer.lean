import NetworkLib.Protocols.TcpService
import NetworkLib.SuperClient.ScenarioEngine

/-! # The super server

The handlers of the super server send back what they get: in proto mode the payload and the message
type of an envelope, in raw mode the bytes. Over TCP in proto mode every client hears the echoes of
those of its own envelopes that the rate limiter lets through, in order and each once (`echoes`),
and the message handler of the super client cannot tell an echo from what it has sent
(`onMessage_echo`). In raw mode the bytes of the reads that the limiter lets through go back
(`raw_echoes`). -/

namespace NetworkLib.SuperServer

open Service TcpService

/-- The stream handler. -/
def streamHandler : StreamHandler Unit := fun app req resp =>
  let resp := if req.payload.isSome then resp.setData req.getPayload.data else resp
  let resp :=
    if req.header.isSome then
      resp.mutableHeader fun r => { r with messageType := req.getHeader.messageType }
    else resp
  { app, resp }

/-- The raw handler. -/
def rawHandler : RawHandler Unit := fun app data =>
  { app, resp := {}, calls := [.writeString data] }

/-- The handler of a TCP listener in proto mode. `Server::Init` gives it a rate limiter when the
configuration enables one, as it does by default. -/
def tcpProto (limiter : Option (ℕ → Bool)) : ProtocolHandler Unit where
  streamHandler := some streamHandler
  rateLimiter := limiter

/-- The handler of a TCP listener in raw mode. -/
def tcpRaw (limiter : Option (ℕ → Bool)) : ProtocolHandler Unit where
  rawHandler := some rawHandler
  rateLimiter := limiter

/-- The answer to an envelope over TCP. -/
def echo (req : StreamEnvelope) : StreamEnvelope :=
  (streamHandler () req (TcpHandler.skeleton req)).resp

/-- What an echo is: the message id becomes the correlation id, and the rest of the header is
dropped. -/
theorem echo_eq (req : StreamEnvelope) :
    echo req =
      { header := req.header.map fun header =>
          { messageId := header.messageId ++ bytesOf "_resp"
            correlationId := header.messageId
            messageType := header.messageType }
        payload := req.payload } := by
  obtain ⟨header, payload, metadata⟩ := req
  cases header <;> cases payload <;> rfl

/-- The stream handler leaves its context alone. -/
theorem writesOnly_streamHandler : WritesOnly streamHandler where
  noThrow _ _ _ := rfl
  isWrite _ _ _ _ hcall := absurd hcall List.not_mem_nil

variable {ι τ : Type*} {pb : Protobuf} {g : MessageHandler τ}

/-- Nobody writes to the connections but their own handler. -/
def noPush (ι : Type*) : Unit → Empty → List (ι × StreamEnvelope) := fun _ p => nomatch p

/-- The envelopes that come through: they fit, and so do their echoes. -/
def Echoed (pb : Protobuf) (req : StreamEnvelope) : Prop := Fits pb req ∧ Fits pb (echo req)

/-! ## Proto mode -/

section Proto

variable {limiter : Option (ℕ → Bool)}

/-- The envelopes that the rate limiter lets through, of some that are served in this order: the
limiter is asked once for each. -/
def admitted (limiter : Option (ℕ → Bool)) (served : List (ι × StreamEnvelope)) :
    List (ι × StreamEnvelope) :=
  (served.zipIdx.filter fun t => (tcpProto limiter).checkRateLimit t.2).map Prod.fst

/-- A limiter that refuses nothing lets all of them through. -/
theorem admitted_eq_self (hallows : ∀ k, (tcpProto limiter).checkRateLimit k = true)
    (served : List (ι × StreamEnvelope)) : admitted limiter served = served := by
  have hall : (served.zipIdx.filter fun t => (tcpProto limiter).checkRateLimit t.2)
      = served.zipIdx := List.filter_eq_self.mpr fun t _ => hallows t.2
  rw [admitted, hall, List.zipIdx_map_fst]

/-- How an envelope is served. -/
theorem serve_eq (app : Unit) (n : ℕ) (req : StreamEnvelope) :
    serve pb (tcpProto limiter) (app, n) req
      = (((), n + 1), if (tcpProto limiter).checkRateLimit n then sendable pb [echo req] else []) := by
  rw [serve]
  split
  · rfl
  · rfl

/-- **What is sent to a client** are the echoes of its envelopes that the limiter lets through. An
echo with nothing in it is not sent. -/
theorem answers_eq [DecidableEq ι] (i : ι) (served : List (ι × StreamEnvelope)) (n : ℕ) :
    (protocol pb (fun _ : ι => tcpProto limiter) (noPush ι) g).answers i ((), n) served
      = (partFor i (((served.zipIdx n).filter fun t =>
          (tcpProto limiter).checkRateLimit t.2).map Prod.fst)).flatMap fun req =>
            sendable pb [echo req] := by
  induction served generalizing n with
  | nil => rfl
  | cons t served ih =>
      obtain ⟨j, req⟩ := t
      have hserve : (protocol pb (fun _ : ι => tcpProto limiter) (noPush ι) g).serve ((), n) j req
          = (((), n + 1),
            if (tcpProto limiter).checkRateLimit n then sendable pb [echo req] else []) :=
        serve_eq () n req
      rw [Protocol.answers, hserve, ih, List.zipIdx_cons, List.filter_cons]
      by_cases hallows : (tcpProto limiter).checkRateLimit n = true
      · rw [if_pos hallows, if_pos hallows, List.map_cons, partFor_cons, List.flatMap_append]
        by_cases hj : j = i
        · rw [if_pos hj, if_pos hj, List.flatMap_singleton]
        · rw [if_neg hj, if_neg hj, List.flatMap_nil]
      · rw [if_neg hallows, if_neg hallows, ite_self, List.nil_append]

/-- The envelopes are carried when they and their echoes fit. -/
theorem carried {es : List (Event ι StreamEnvelope Empty)}
    (hes : ∀ i req, Event.request i req ∈ es → Echoed pb req) :
    ∀ input ∈ es.flatMap Event.input,
      input.Carried (Good pb fun _ : ι => tcpProto limiter) (Sound pb (noPush ι)) := by
  refine carried_of_events (fun i req hreq => ⟨(hes i req hreq).1, fun app _ e he => ?_⟩)
    fun p => nomatch p
  have hecho : e ∈ sendable pb [echo req] := he
  rw [List.mem_singleton.mp (List.mem_of_mem_filter hecho)]
  exact (hes i req hreq).2

/-- The stream handler of every connection writes envelopes alone. -/
theorem writesOnly_tcpProto (f : StreamHandler Unit) (hf : (tcpProto limiter).streamHandler = some f) :
    WritesOnly f := by
  cases hf
  exact writesOnly_streamHandler

/-- The service is carried by TCP. -/
theorem carries_tcpProto (hg : MessageHandler.NoThrow g) :
    Carries (protocol pb (fun _ : ι => tcpProto limiter) (noPush ι) g)
      (code pb (fun _ : ι => tcpProto limiter) (noPush ι) g) (wire pb)
      (Good pb fun _ : ι => tcpProto limiter) (Fits pb) (Sound pb (noPush ι)) :=
  carries (fun _ => writesOnly_tcpProto) hg

/-- **The super server echoes.** In every run of any number of clients over TCP in proto mode the
server serves the envelopes of each client in order, and all of them when nothing is on its way to
the server and it waits. Each client hears the echoes of its own envelopes that the rate limiter
lets through, in order and each once, and all of them when nothing is on its way to the client and
it waits; an echo with nothing in it is not sent. -/
theorem echoes [DecidableEq ι] (limiter : Option (ℕ → Bool)) (hg : MessageHandler.NoThrow g)
    (client : ι → ClientSession τ) (hclient : ∀ i, (client i).delivered = [])
    {es : List (Event ι StreamEnvelope Empty)}
    (hes : ∀ i req, Event.request i req ∈ es → Echoed pb req) :
    let C := code pb (fun _ : ι => tcpProto limiter) (noPush ι) g
    let w := Trace.run (Wires.step C) (.start ((), 0) client) es
    ∃ served : List (ι × StreamEnvelope), ∀ i,
      let heard := (partFor i (admitted limiter served)).flatMap fun req => sendable pb [echo req]
      partFor i served <+: requestsOf i (es.flatMap Event.input) ∧
      ((w.link i).toServer = [] → C.serverTurn i w.app (w.link i).arrived = none →
        partFor i served = requestsOf i (es.flatMap Event.input)) ∧
      (w.link i).client.delivered <+: heard ∧
      ((w.link i).toClient = [] → C.clientTurn (w.link i).client (w.link i).received = none →
        (w.link i).client.delivered = heard) := by
  intro C w
  have hpublish : ∀ (r : Unit × ℕ) (p : Empty), ∀ t ∈ (protocol pb (fun _ : ι => tcpProto limiter)
      (noPush ι) g).publish r p, some t.2 = none := fun _ p => nomatch p
  obtain ⟨served, -, hserved⟩ :=
    wires_served (carries_tcpProto hg) hear_delivered hpublish ((), 0) client (carried hes)
  refine ⟨served, fun i => ?_⟩
  obtain ⟨hfront, hall, hheard⟩ := hserved i
  have hdelivered := hheard (hclient i)
  simp only [List.filterMap_some, answers_eq] at hdelivered
  exact ⟨hfront, hall, hdelivered.1, hdelivered.2⟩

/-- Two clients and a limiter that refuses the second envelope, which is the one of the other
client. -/
theorem echoes_refused :
    let pb := Protobuf.shortPayload
    let limiter : Option (ℕ → Bool) := some fun k => decide (k ≠ 1)
    let first : StreamEnvelope := { payload := some { data := [1, 2] } }
    let second : StreamEnvelope := { payload := some { data := [3] } }
    let es : List (Event Bool StreamEnvelope Empty) :=
      [.request true first, .request false second, .arrive true 10, .turn true, .arrive false 5,
        .turn false, .request true second, .arrive true 5, .turn true, .receive true 11,
        .clientTurn true, .clientTurn true]
    let C := code pb (fun _ : Bool => tcpProto limiter) (noPush Bool) ignore
    let w := Trace.run (Wires.step C) (.start ((), 0) fun _ => { app := () }) es
    ∃ served : List (Bool × StreamEnvelope), ∀ i,
      let heard := (partFor i (admitted limiter served)).flatMap fun req => sendable pb [echo req]
      partFor i served <+: requestsOf i (es.flatMap Event.input) ∧
      ((w.link i).toServer = [] → C.serverTurn i w.app (w.link i).arrived = none →
        partFor i served = requestsOf i (es.flatMap Event.input)) ∧
      (w.link i).client.delivered <+: heard ∧
      ((w.link i).toClient = [] → C.clientTurn (w.link i).client (w.link i).received = none →
        (w.link i).client.delivered = heard) := by
  intro pb limiter first second es
  have hes : ∀ i req, Event.request i req ∈ es → Echoed pb req := by
    intro i req hreq
    simp only [es, List.mem_cons, Event.request.injEq, List.not_mem_nil, or_false, false_or,
      reduceCtorEq] at hreq
    rcases hreq with ⟨-, rfl⟩ | ⟨-, rfl⟩ | ⟨-, rfl⟩
    · exact ⟨by decide, by decide⟩
    · exact ⟨by decide, by decide⟩
    · exact ⟨by decide, by decide⟩
  exact echoes limiter noThrow_ignore (fun _ => { app := () }) (fun _ => rfl) hes

/-- With a limiter that refuses nothing the answers to the envelopes of a client are their echoes.
-/
theorem shaped (hallows : ∀ k, (tcpProto limiter).checkRateLimit k = true) :
    Shaped (protocol pb (fun _ : ι => tcpProto limiter) (noPush ι) g) some
      (fun _ req => sendable pb [echo req]) ClientSession.delivered where
  serve r i req := by
    rw [List.filterMap_some]
    show (serve pb (tcpProto limiter) (r.1, r.2) req).2 = _
    rw [serve_eq, if_pos (hallows r.2)]
  publish _ p := nomatch p
  hear _ _ := rfl

/-- **With a limiter that refuses nothing** each client hears the echoes of all its envelopes. -/
theorem echoes_all [DecidableEq ι] (hallows : ∀ k, (tcpProto limiter).checkRateLimit k = true)
    (hg : MessageHandler.NoThrow g) (client : ι → ClientSession τ)
    {es : List (Event ι StreamEnvelope Empty)}
    (hes : ∀ i req, Event.request i req ∈ es → Echoed pb req) (i : ι)
    (hclient : (client i).delivered = []) :
    let C := code pb (fun _ : ι => tcpProto limiter) (noPush ι) g
    let w := Trace.run (Wires.step C) (.start ((), 0) client) es
    let all := (requestsOf i (es.flatMap Event.input)).flatMap fun req => sendable pb [echo req]
    (w.link i).client.delivered <+: all ∧
      ((w.link i).toServer = [] → C.serverTurn i w.app (w.link i).arrived = none →
        (w.link i).toClient = [] → C.clientTurn (w.link i).client (w.link i).received = none →
        (w.link i).client.delivered = all) := by
  intro C w all
  have hanswered := wires_answered (carries_tcpProto hg) (shaped hallows) ((), 0) client (carried hes) i hclient
  simpa only [List.filterMap_some] using hanswered

end Proto

/-- The message handler of the super client makes of an echo what it would make of what was sent. -/
theorem onMessage_echo (slot : ScenarioEngine.Slot) (data : Bytes) :
    ScenarioEngine.onMessage slot (echo (ScenarioEngine.envelope data))
      = ScenarioEngine.onMessage slot (ScenarioEngine.envelope data) := by
  rw [echo_eq]
  rfl

/-! ## Raw mode -/

/-- **In raw mode the bytes go back.** Every read that is not empty is sent back whole if the rate
limiter lets it through, and else dropped; nothing is kept. -/
theorem raw_echoes (pb : Protobuf) (limiter : Option (ℕ → Bool)) (reads : List Bytes) :
    let q := TcpHandler.receiveAll pb (tcpRaw limiter) ({ app := () }, []) reads
    sentBytes q.1.calls = (((reads.filter (· ≠ [])).zipIdx.filter fun t =>
      (tcpRaw limiter).checkRateLimit t.2).flatMap Prod.fst) ∧ q.2 = [] := by
  -- with what has been sent and the limiter's questions so far
  suffices hall : ∀ s : Session Unit,
      let q := TcpHandler.receiveAll pb (tcpRaw limiter) (s, []) reads
      sentBytes q.1.calls = sentBytes s.calls
        ++ ((((reads.filter (· ≠ [])).zipIdx s.consumed).filter fun t =>
          (tcpRaw limiter).checkRateLimit t.2).flatMap Prod.fst) ∧ q.2 = [] by
    exact hall { app := () }
  induction reads with
  | nil => exact fun s => ⟨(List.append_nil _).symm, rfl⟩
  | cons read reads ih =>
      intro s
      have hread : TcpHandler.onMessage pb (tcpRaw limiter) (s, Buffer.append [] read)
          = TcpHandler.onRaw pb (tcpRaw limiter) rawHandler ({ s with thrown := none }, read) := rfl
      rw [TcpHandler.receiveAll, List.foldl_cons, hread, ← TcpHandler.receiveAll, TcpHandler.onRaw]
      by_cases hempty : read.length = 0
      · obtain rfl := List.length_eq_zero_iff.mp hempty
        exact ih { s with thrown := none }
      · have hne : read ≠ [] := fun h => hempty (by rw [h]; rfl)
        have hrest : Buffer.retrieve read read.length = [] := by
          rw [Buffer.retrieve_eq_drop, List.drop_length]
        rw [if_neg hempty, List.filter_cons_of_pos (by simpa using hne), List.zipIdx_cons,
          List.filter_cons, hrest]
        by_cases hallows : (tcpRaw limiter).checkRateLimit s.consumed = true
        · obtain ⟨hsent, hleft⟩ := ih { s with
            consumed := s.consumed + 1
            calls := s.calls ++ [.send read]
            thrown := none }
          rw [if_pos hallows, if_pos hallows, List.flatMap_cons, ← List.append_assoc]
          rw [sentBytes_append, sentBytes_send] at hsent
          exact ⟨hsent, hleft⟩
        · rw [if_neg hallows, if_neg hallows]
          exact ih { s with consumed := s.consumed + 1, thrown := none }

end NetworkLib.SuperServer
