import NetworkLib.Client.RpcProtocol
import NetworkLib.Protocols.RpcFrameSync
import NetworkLib.Protocols.TcpFraming

/-! # Correlation of RPC responses

A request that `RpcClientProtocol::Send` writes always has a correlation id on the wire. The echo of
`RpcHandler` puts the request's *message id* into the correlation id of its response, and the path
through a stream handler copies nothing. So a response is correlated with its request through the
echo exactly when the two ids of the request are the same, and never through a stream handler that
fills in the payload alone (`correlation_iff`). -/

namespace NetworkLib

open Loop LengthPrefix

/-- A protobuf runtime as far as it is known: some messages with their serialisations. -/
def Protobuf.ofTable (table : List (StreamEnvelope × Bytes)) : Protobuf where
  serializeAsString m := ((table.find? fun entry => entry.1 = m).map Prod.snd).getD []
  parseFromString bs := (table.find? fun entry => entry.2 = bs).map Prod.fst
  parseFromArray data size :=
    (table.find? fun entry => entry.2 = data.take size.toNat).map Prod.fst

/-- A serialised message, and whatever follows it in memory, parses again. Protobuf messages are
shorter than 2 GiB. -/
structure Protobuf.ParsesInPlace (pb : Protobuf) (m : StreamEnvelope) : Prop where
  length_lt : (pb.serializeAsString m).length + 4 < 2 ^ 31
  parseFromArray : ∀ rest,
    pb.parseFromArray (pb.serializeAsString m ++ rest) (pb.serializeAsString m).length = some m

/-- A message that the client takes from the wire: it parses again, and is not larger than the bound
of the client. -/
def Protobuf.Deliverable (pb : Protobuf) (m : StreamEnvelope) : Prop :=
  pb.RoundTrips m ∧ (pb.serializeAsString m).length ≤ RpcClientProtocol.maxLength

variable {σ τ : Type*} {pb : Protobuf}

namespace RpcClientProtocol

/-! ## The client -/

/-- The bytes of a request are the frame of what `Send` makes of the envelope. -/
theorem sentBytes_send (envelope : StreamEnvelope) (idCounter : ℕ) :
    sentBytes (send pb envelope idCounter).1
      = frame (pb.serializeAsString (message envelope idCounter).1) :=
  NetworkLib.sentBytes_send _

/-- **Every request has a correlation id on the wire.** -/
theorem message_correlationId_ne_nil (envelope : StreamEnvelope) (idCounter : ℕ) :
    (message envelope idCounter).1.getHeader.correlationId ≠ [] := by
  have hid : generateId idCounter ≠ [] := by
    intro h
    have hfirst := congrArg List.head? h
    cases hfirst
  simp only [message]
  generalize (if envelope.header.isSome = true then envelope
    else envelope.mutableHeader fun header =>
      { header with messageType := bytesOf "rpc.generic" }) = msg
  split
  · exact hid
  · next hne => simpa using hne

/-- The message id is the one the application has set. -/
theorem message_messageId (envelope : StreamEnvelope) (idCounter : ℕ) :
    (message envelope idCounter).1.getHeader.messageId = envelope.getHeader.messageId := by
  simp only [message]
  split
  · split
    · rfl
    · rfl
  · next hnone =>
      split
      · rfl
      · rfl

variable {g : MessageHandler σ}

/-- A frame is processed without an exception when the handler throws none. -/
theorem process_thrown (hnt : MessageHandler.NoThrow g) (s : Session σ) (data : Bytes) :
    (process pb (some g) s data).thrown = none := by
  unfold process
  cases pb.parseFromString data with
  | none => rfl
  | some msg => exact hnt s.app msg

/-- **A turn of the client's receive loop is a turn of a loop that reads frames.** -/
theorem turn_eq : turn pb (some g) = frameTurn maxLength (process pb (some g))
    (fun s data => (process pb (some g) s data).thrown.isSome)
    (fun p => ({ p.1 with calls := p.1.calls ++ [.forceClose] }, p.2)) := by
  funext p
  obtain ⟨s, buf⟩ := p
  have hlen := toNat_ntohl_take buf
  rw [turn, frameTurn]
  simp only [← hlen]
  by_cases hmax : maxLength < (ntohl (buf.take 4)).toNat
  · rw [if_pos hmax, if_pos hmax]
  · have hadd := toNat_four_add (Nat.not_lt.mp hmax)
    rw [if_neg hmax, if_neg hmax]
    simp only [hadd, Buffer.retrieve_eq_drop, List.drop_drop]

/-- **The client's receive loop reads length-prefixed frames** of at most 100 MiB, when the message
handler does not throw. -/
theorem readsFrames (hnt : MessageHandler.NoThrow g) :
    ReadsFrames maxLength (process pb (some g)) (fun s => s.thrown = none) (turn pb (some g))
      (onDataReceived pb (some g)) := by
  rw [turn_eq]
  refine frameTurn_readsFrames ?_ ?_ ?_
  · intro s payload _
    exact process_thrown hnt s payload
  · intro s payload _
    rw [process_thrown hnt s payload]
    rfl
  · rintro ⟨⟨⟨app, delivered, thrown⟩, calls⟩, buf⟩ hp
    cases hp
    rw [← turn_eq]
    rfl

/-- **The client delivers a response**, however its frame is cut into reads. -/
theorem delivered_frame (hnt : MessageHandler.NoThrow g) {r : StreamEnvelope}
    (hr : pb.Deliverable r) (app : σ) {reads : List Bytes}
    (hreads : reads.flatten = frame (pb.serializeAsString r)) :
    (receiveAll pb (some g) ({ app }, []) reads).1.delivered = [r] := by
  have hlimit : maxLength < 2 ^ 32 := by decide
  have hframes : reads.flatten = frames [pb.serializeAsString r] := by simpa [frames] using hreads
  have hfits : ∀ p ∈ [pb.serializeAsString r], p.length ≤ maxLength := by simpa using hr.2
  have hread : ReadsFrames maxLength (process pb (some g)) (fun s => s.thrown = none)
      (turn pb (some g)) (onDataReceived pb (some g)) := readsFrames hnt
  have hall := hread.foldl_whole hlimit hfits (s := { app }) rfl hframes
  have hparse : pb.parseFromString (pb.serializeAsString r) = some r := hr.1
  have hone : (process pb (some g) { app } (pb.serializeAsString r)).delivered = [r] := by
    rw [process, hparse]
    rfl
  exact (congrArg (fun p => p.1.delivered) hall).trans hone

end RpcClientProtocol

namespace RpcHandler

/-! ## The server -/

variable (pb) in
/-- `OnMessage` on a connection with `request` in its input buffer sends `sent`. -/
def Serves (h : ProtocolHandler τ) (s : Session τ) (request sent : Bytes) : Prop :=
  ∃ q calls, OnMessage pb h (s, request) q ∧ q.1.calls = s.calls ++ calls ∧ sentBytes calls = sent

/-- What is sent is determined. -/
theorem Serves.unique {h : ProtocolHandler τ} {s : Session τ} {request sent sent' : Bytes}
    (hs : Serves pb h s request sent) (hs' : Serves pb h s request sent') : sent = sent' := by
  obtain ⟨q, calls, hexit, hcalls, rfl⟩ := hs
  obtain ⟨q', calls', hexit', hcalls', rfl⟩ := hs'
  have hsame := Exits.unique hexit hexit'
  rw [← hsame, hcalls] at hcalls'
  rw [List.append_cancel_left hcalls']

/-- **One frame in the buffer is processed whole.** -/
theorem onMessage_frame {h : ProtocolHandler τ} {s : Session τ} {m : StreamEnvelope}
    (hm : pb.ParsesInPlace m) {s' : Session τ}
    (hs' : process pb h s.enter (pb.serializeAsString m)
      (UInt32.ofNat (pb.serializeAsString m).length) = s') (hthrown : s'.thrown = none) :
    OnMessage pb h (s, frame (pb.serializeAsString m)) (s', []) := by
  have hlength := hm.length_lt
  have hlt : (pb.serializeAsString m).length < 2 ^ 32 := by omega
  have hannounced := announced_frame hlt []
  rw [List.append_nil] at hannounced
  have hheader : ntohl ((frame (pb.serializeAsString m)).take 4)
      = UInt32.ofNat (pb.serializeAsString m).length := by
    apply UInt32.toNat_inj.mp
    have hsize : (pb.serializeAsString m).length < UInt32.size :=
      (Nat.lt_of_add_right_lt hlength).trans (by decide)
    rw [toNat_ntohl_take, hannounced, UInt32.toNat_ofNat_of_lt' hsize]
  have hdrop : (frame (pb.serializeAsString m)).drop 4 = pb.serializeAsString m := by
    simpa using drop_four_frame (pb.serializeAsString m) []
  have hturn : turn pb h (s.enter, frame (pb.serializeAsString m)) = .again (s', []) := by
    rw [← hheader] at hs'
    nth_rewrite 1 [← hdrop] at hs'
    rw [turn_of_header s.enter (by rw [length_frame]; omega) hs', hannounced,
      Nat.mod_eq_of_lt (by omega), if_neg (by rw [length_frame]; omega), hthrown]
    simp [List.drop_of_length_le (le_of_eq (length_frame _))]
  exact (exits_again_iff hturn).mpr (.leave (turn_of_short s' (by decide)))

/-- A length that a protobuf message can have is passed to `ParseFromArray` as it is. -/
theorem toInt32_ofNat {n : ℕ} (hn : n < 2 ^ 31) : (UInt32.ofNat n).toInt32.toInt = n := by
  have hnat : (UInt32.ofNat n).toBitVec.toNat = n :=
    UInt32.toNat_ofNat_of_lt' (hn.trans (by decide))
  have hbits : (UInt32.ofNat n).toInt32.toInt = (UInt32.ofNat n).toBitVec.toInt := rfl
  rw [hbits, BitVec.toInt_eq_toNat_of_lt (by omega), hnat]

/-- **The echo sends the frame of its response.** -/
theorem serves_echo {h : ProtocolHandler τ} (hnone : h.streamHandler = none) (s : Session τ)
    {m : StreamEnvelope} (hm : pb.ParsesInPlace m) :
    Serves pb h s (frame (pb.serializeAsString m)) (frame (pb.serializeAsString (echo m))) := by
  have hlength := hm.length_lt
  have hparse := hm.parseFromArray []
  rw [List.append_nil] at hparse
  have hprocess : process pb h s.enter (pb.serializeAsString m)
      (UInt32.ofNat (pb.serializeAsString m).length)
      = s.enter.push [.send (htonl (UInt32.ofNat (pb.serializeAsString (echo m)).length)),
          .send (pb.serializeAsString (echo m))] := by
    simp only [process, toInt32_ofNat (show (pb.serializeAsString m).length < 2 ^ 31 by omega),
      hparse, hnone]
  exact ⟨_, _, onMessage_frame hm hprocess rfl, rfl, by simp [sentBytes, ConnCall.bytes, frame]⟩

/-- The stream handler fills in the payload of the response, and does nothing else. -/
def FillsPayload (f : StreamHandler τ) : Prop :=
  ∀ app req, (∃ p, (f app req {}).resp = { payload := some p }) ∧ (f app req {}).calls = [] ∧
    (f app req {}).thrown = none

/-- **What a stream handler fills in is sent as it is.** -/
theorem serves_filled {h : ProtocolHandler τ} {f : StreamHandler τ} (hf : h.streamHandler = some f)
    (hfills : FillsPayload f) (s : Session τ) {m : StreamEnvelope} (hm : pb.ParsesInPlace m) :
    Serves pb h s (frame (pb.serializeAsString m))
      (frame (pb.serializeAsString (f s.app m {}).resp)) := by
  have hlength := hm.length_lt
  have hparse := hm.parseFromArray []
  rw [List.append_nil] at hparse
  obtain ⟨⟨p, hresp⟩, hcalls, hthrown⟩ := hfills s.app m
  have hrespond : respond pb (f s.app m {}).resp
      = [.send (frame (pb.serializeAsString (f s.app m {}).resp))] := by
    rw [hresp]
    rfl
  have hprocess : process pb h s.enter (pb.serializeAsString m)
      (UInt32.ofNat (pb.serializeAsString m).length)
      = (s.enter.invoke f (fun calls => calls.flatMap (RpcStreamContext.onConn pb)) m {}).1.push
          [.send (frame (pb.serializeAsString (f s.app m {}).resp))] := by
    simp only [process, toInt32_ofNat (show (pb.serializeAsString m).length < 2 ^ 31 by omega),
      hparse, hf]
    simp only [Session.invoke, Session.enter, hthrown, hrespond]
  refine ⟨_, [.send (frame (pb.serializeAsString (f s.app m {}).resp))],
    onMessage_frame hm hprocess rfl, ?_, NetworkLib.sentBytes_send _⟩
  simp [Session.push, Session.invoke, Session.enter, hcalls]

end RpcHandler

/-! ## Both sides -/

open RpcClientProtocol RpcHandler

variable (pb) in
/-- The message handler of the client is called with `r`, and nothing else, when the server answers
the request for an envelope. -/
def Answered (h : ProtocolHandler τ) (s : Session τ) (envelope : StreamEnvelope) (idCounter : ℕ)
    (g : MessageHandler σ) (app : σ) (r : StreamEnvelope) : Prop :=
  ∃ sent, Serves pb h s (sentBytes (send pb envelope idCounter).1) sent ∧
    ∀ reads : List Bytes, reads.flatten = sent →
      (receiveAll pb (some g) ({ app }, []) reads).1.delivered = [r]

variable (pb) in
/-- **The response is correlated with its request**: its correlation id is the one that was on the
wire. -/
def Correlated (h : ProtocolHandler τ) (s : Session τ) (envelope : StreamEnvelope) (idCounter : ℕ)
    (g : MessageHandler σ) (app : σ) : Prop :=
  ∀ r, Answered pb h s envelope idCounter g app r →
    r.getHeader.correlationId = (message envelope idCounter).1.getHeader.correlationId

variable {h : ProtocolHandler τ} {s : Session τ} {envelope : StreamEnvelope} {idCounter : ℕ}
  {g : MessageHandler σ} {app : σ}

/-- What the client gets is what the server has framed. -/
theorem answered_iff (hnt : MessageHandler.NoThrow g) {response : StreamEnvelope}
    (hserves : Serves pb h s (frame (pb.serializeAsString (message envelope idCounter).1))
      (frame (pb.serializeAsString response)))
    (hdeliver : pb.Deliverable response) (r : StreamEnvelope) :
    Answered pb h s envelope idCounter g app r ↔ r = response := by
  rw [← RpcClientProtocol.sentBytes_send] at hserves
  constructor
  · rintro ⟨sent, hsent, hreads⟩
    obtain rfl := hserves.unique hsent
    have hwhole : [frame (pb.serializeAsString response)].flatten
        = frame (pb.serializeAsString response) := List.flatten_singleton
    have hsame := (hreads _ hwhole).symm.trans (delivered_frame hnt hdeliver app hwhole)
    exact List.singleton_inj.mp hsame
  · rintro rfl
    exact ⟨_, hserves, fun reads hreads => delivered_frame hnt hdeliver app hreads⟩

/-- A response that is answered decides whether it is correlated. -/
theorem correlated_iff (hnt : MessageHandler.NoThrow g) {response : StreamEnvelope}
    (hserves : Serves pb h s (frame (pb.serializeAsString (message envelope idCounter).1))
      (frame (pb.serializeAsString response)))
    (hdeliver : pb.Deliverable response) :
    Correlated pb h s envelope idCounter g app ↔
      response.getHeader.correlationId
        = (message envelope idCounter).1.getHeader.correlationId := by
  constructor
  · intro hall
    exact hall response ((answered_iff hnt hserves hdeliver response).mpr rfl)
  · intro heq r hr
    rw [(answered_iff hnt hserves hdeliver r).mp hr]
    exact heq

/-- **RPC correlation.** For every envelope, with whatever ids: the answer of the echo is correlated
with the request exactly when the message id that the application has set is the correlation id on
the wire; the answer of a stream handler that fills in the payload alone never is. -/
theorem correlation_iff (hrequest : pb.ParsesInPlace (message envelope idCounter).1)
    (hnt : MessageHandler.NoThrow g) :
    (h.streamHandler = none → pb.Deliverable (echo (message envelope idCounter).1) →
      (∃ r, Answered pb h s envelope idCounter g app r) ∧
      (Correlated pb h s envelope idCounter g app ↔
        envelope.getHeader.messageId
          = (message envelope idCounter).1.getHeader.correlationId)) ∧
    ∀ f, h.streamHandler = some f → FillsPayload f →
      pb.Deliverable (f s.app (message envelope idCounter).1 {}).resp →
      (∃ r, Answered pb h s envelope idCounter g app r) ∧
      ¬ Correlated pb h s envelope idCounter g app := by
  constructor
  · intro hnone hdeliver
    have hserves := serves_echo hnone s hrequest
    refine ⟨⟨_, (answered_iff hnt hserves hdeliver _).mpr rfl⟩, ?_⟩
    rw [correlated_iff hnt hserves hdeliver, ← message_messageId envelope idCounter]
    rfl
  · intro f hf hfills hdeliver
    have hserves := serves_filled hf hfills s hrequest
    refine ⟨⟨_, (answered_iff hnt hserves hdeliver _).mpr rfl⟩, ?_⟩
    rw [correlated_iff hnt hserves hdeliver]
    -- without a header there is no correlation id
    obtain ⟨⟨p, hresp⟩, -, -⟩ := hfills s.app (message envelope idCounter).1
    rw [hresp]
    exact (message_correlationId_ne_nil envelope idCounter).symm

/-! ## An empty envelope -/

/-- The request for an empty envelope, and the two responses to it, as protobuf writes them. -/
def correlationTable : Protobuf := .ofTable
  [({ header := some { messageType := bytesOf "rpc.generic", correlationId := bytesOf "req-1" } },
      [0x0A, 0x14, 0x12, 0x05] ++ bytesOf "req-1" ++ [0x42, 0x0B] ++ bytesOf "rpc.generic"),
    ({ header := some { messageType := bytesOf "rpc.generic.response" }, payload := some {} },
      [0x0A, 0x16, 0x42, 0x14] ++ bytesOf "rpc.generic.response" ++ [0x12, 0x00]),
    ({ payload := some { data := bytesOf "ok" } }, [0x12, 0x04, 0x1A, 0x02] ++ bytesOf "ok")]

/-- The request for an empty envelope parses where it stands. -/
theorem parsesInPlace_correlationTable :
    correlationTable.ParsesInPlace (message {} 1).1 where
  length_lt := by decide
  parseFromArray rest := by
    have hserialize : correlationTable.serializeAsString (message {} 1).1
        = [0x0A, 0x14, 0x12, 0x05] ++ bytesOf "req-1" ++ [0x42, 0x0B] ++ bytesOf "rpc.generic" := by
      decide
    rw [hserialize]
    rfl

/-- The echo of it is delivered. -/
theorem deliverable_echo : correlationTable.Deliverable (echo (message {} 1).1) :=
  ⟨by decide, by decide⟩

/-- So is the response of a stream handler. -/
theorem deliverable_filled : correlationTable.Deliverable { payload := some { data := bytesOf "ok" } } :=
  ⟨by decide, by decide⟩

/-- A handler that answers with the same data fills in the payload alone. -/
theorem fillsPayload_answer (data : Bytes) : FillsPayload (answer data) :=
  fun _ _ => ⟨⟨_, rfl⟩, rfl, rfl⟩

/-- Neither response to an empty envelope has the correlation id `req-1` of its request. -/
theorem correlation_lost :
    ¬ Correlated correlationTable ({} : ProtocolHandler Unit) { app := () } {} 1 ignore () ∧
      ¬ Correlated correlationTable { streamHandler := some (answer (bytesOf "ok")) } { app := () }
        {} 1 ignore () := by
  constructor
  · rw [correlated_iff noThrow_ignore (serves_echo rfl _ parsesInPlace_correlationTable)
      deliverable_echo]
    decide
  · rw [correlated_iff noThrow_ignore
      (serves_filled rfl (fillsPayload_answer _) _ parsesInPlace_correlationTable)
      deliverable_filled]
    decide

/-! ## An envelope with its message id as its correlation id -/

/-- A request that the application has given both ids. -/
def sumRequest : StreamEnvelope where
  header := some
    { messageId := bytesOf "7", correlationId := bytesOf "7", messageType := bytesOf "sum" }

/-- This request, and the two responses to it, as protobuf writes them. -/
def sumTable : Protobuf := .ofTable
  [(sumRequest, [0x0A, 0x0B, 0x0A, 0x01, 0x37, 0x12, 0x01, 0x37, 0x42, 0x03] ++ bytesOf "sum"),
    ({ header := some { correlationId := bytesOf "7", messageType := bytesOf "sum.response" },
       payload := some {} },
      [0x0A, 0x11, 0x12, 0x01, 0x37, 0x42, 0x0C] ++ bytesOf "sum.response" ++ [0x12, 0x00]),
    ({ payload := some { data := bytesOf "ok" } }, [0x12, 0x04, 0x1A, 0x02] ++ bytesOf "ok")]

/-- The request parses where it stands. -/
theorem parsesInPlace_sumTable : sumTable.ParsesInPlace (message sumRequest 1).1 where
  length_lt := by decide
  parseFromArray rest := by
    have hserialize : sumTable.serializeAsString (message sumRequest 1).1
        = [0x0A, 0x0B, 0x0A, 0x01, 0x37, 0x12, 0x01, 0x37, 0x42, 0x03] ++ bytesOf "sum" := by
      decide
    rw [hserialize]
    rfl

/-- The answer of the echo to it is correlated, the one of a stream handler is not. -/
theorem correlation_iff_same_ids :
    ((∃ r, Answered sumTable ({} : ProtocolHandler Unit) { app := () } sumRequest 1 ignore () r) ∧
      Correlated sumTable ({} : ProtocolHandler Unit) { app := () } sumRequest 1 ignore ()) ∧
    (∃ r, Answered sumTable { streamHandler := some (answer (bytesOf "ok")) } { app := () }
        sumRequest 1 ignore () r) ∧
      ¬ Correlated sumTable { streamHandler := some (answer (bytesOf "ok")) } { app := () }
        sumRequest 1 ignore () := by
  obtain ⟨hanswered, hiff⟩ : (∃ r, Answered sumTable ({} : ProtocolHandler Unit) { app := () }
      sumRequest 1 ignore () r) ∧ (Correlated sumTable {} { app := () } sumRequest 1 ignore () ↔
        bytesOf "7" = bytesOf "7") :=
    (correlation_iff parsesInPlace_sumTable noThrow_ignore).1 rfl ⟨by decide, by decide⟩
  exact ⟨⟨hanswered, hiff.mpr rfl⟩, (correlation_iff parsesInPlace_sumTable noThrow_ignore).2 _ rfl
    (fillsPayload_answer _) ⟨by decide, by decide⟩⟩

end NetworkLib
