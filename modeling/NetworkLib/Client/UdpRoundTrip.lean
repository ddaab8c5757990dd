import NetworkLib.Client.ClientProtocol
import NetworkLib.Protocols.TcpFraming
import NetworkLib.Protocols.Udp.UdpHandler

/-! # Envelopes over UDP

A client in mode `udp` speaks the length-prefixed TCP protocol, and the UDP handler reads and writes
bare serialised envelopes, so that no envelope arrives in either direction: the server wraps the
frame of a request into an envelope of its own, and the client takes the first bytes of a response
for a length that no datagram can have. -/

namespace NetworkLib

open Loop LengthPrefix

variable {σ : Type*} {pb : Protobuf}

/-- A buffer that starts with a zero byte, which would be a tag of field number 0, does not parse.
-/
def Protobuf.RejectsFieldZero (pb : Protobuf) : Prop :=
  ∀ bs size, pb.parseFromString (0 :: bs) = none ∧ pb.parseFromArray (0 :: bs) size = none

/-- A serialised envelope holds the data of the payload. -/
def Protobuf.HoldsData (pb : Protobuf) (e : StreamEnvelope) : Prop :=
  e.getPayload.data.length ≤ (pb.serializeAsString e).length

/-- The datagrams of calls on a connected UDP socket with nothing left to write: one for each
`Send`. -/
def datagrams (calls : List ConnCall) : List Bytes :=
  calls.filterMap fun
    | .send data => some data
    | _ => none

/-- The datagrams a client in mode `udp` sends for an envelope. -/
def udpRequest (pb : Protobuf) (e : StreamEnvelope) (idCounter : ℕ) : List Bytes :=
  datagrams ((ClientProtocolFactory.create "udp").send pb e idCounter).1

/-- The server's stream handler is called with the envelope `e` a client sent, and with nothing
else. -/
def ServerReceives (pb : Protobuf) (h : EchoUdpHandler σ) (s : UdpSession σ) (e : StreamEnvelope)
    (idCounter : ℕ) : Prop :=
  ((udpRequest pb e idCounter).foldl (h.onPacket pb) s).dispatched = s.dispatched ++ [e]

/-- What a client in mode `udp` has delivered when the datagrams written for `responses` have
arrived. An empty datagram reads as the end of the connection. -/
def udpDelivered (pb : Protobuf) (g : MessageHandler σ) (app : σ)
    (responses : List StreamEnvelope) : List StreamEnvelope :=
  (TcpClientProtocol.receiveAll pb (some g) ({ app }, [])
    ((responses.flatMap fun r => UdpStreamContext.datagram pb (.write r)).takeWhile
      (· ≠ []))).1.delivered

/-- The client's message handler is called with the response `e`, after `earlier` ones. -/
def ClientReceives (pb : Protobuf) (g : MessageHandler σ) (app : σ) (earlier : List StreamEnvelope)
    (e : StreamEnvelope) : Prop :=
  udpDelivered pb g app (earlier ++ [e]) = udpDelivered pb g app earlier ++ [e]

/-! ## Requests -/

/-- What a client in mode `udp` sends for an envelope is one length-prefixed frame. -/
theorem udpRequest_eq (e : StreamEnvelope) (idCounter : ℕ) :
    udpRequest pb e idCounter = [frame (pb.serializeAsString e)] := by
  rw [udpRequest, ClientProtocolFactory.create_udp]
  rfl

/-- The frame of a payload shorter than 16 MiB starts with a zero byte. -/
theorem frame_eq_zero_cons {payload : Bytes} (h : payload.length < 256 ^ 3) :
    ∃ rest, frame payload = 0 :: rest := by
  have hlen : (UInt32.ofNat payload.length).toNat = payload.length :=
    UInt32.toNat_ofNat_of_lt' (h.trans (by decide))
  refine ⟨bigEndian 3 payload.length ++ payload, ?_⟩
  rw [frame, htonl, hlen, bigEndian, Nat.div_eq_of_lt h]
  rfl

/-- A request arrives wrapped, frame and all. -/
theorem dispatched_udpRequest (hzero : pb.RejectsFieldZero) {e : StreamEnvelope}
    (hsize : (pb.serializeAsString e).length < 256 ^ 3) {h : EchoUdpHandler σ} {f : StreamHandler σ}
    (hf : h.streamHandler = some f) (hraw : h.rawHandler = none) (s : UdpSession σ)
    (idCounter : ℕ) :
    ((udpRequest pb e idCounter).foldl (h.onPacket pb) s).dispatched
      = s.dispatched ++ [EchoUdpHandler.fallback (frame (pb.serializeAsString e))] := by
  obtain ⟨rest, hframe⟩ := frame_eq_zero_cons hsize
  have hrequest : EchoUdpHandler.request pb (frame (pb.serializeAsString e))
      = EchoUdpHandler.fallback (frame (pb.serializeAsString e)) := by
    rw [EchoUdpHandler.request, hframe, (hzero rest _).2, Option.getD_none]
  rw [udpRequest_eq, List.foldl_cons, List.foldl_nil, EchoUdpHandler.onPacket, hraw, hf]
  exact congrArg (fun req => s.dispatched ++ [req]) hrequest

/-- The wrapped frame of an envelope is not that envelope: it holds more data. -/
theorem fallback_frame_ne {e : StreamEnvelope} (hdata : pb.HoldsData e) :
    EchoUdpHandler.fallback (frame (pb.serializeAsString e)) ≠ e := by
  intro heq
  have hlonger : frame (pb.serializeAsString e) = e.getPayload.data :=
    congrArg (fun r => r.getPayload.data) heq
  have hlength := congrArg List.length hlonger
  rw [length_frame] at hlength
  unfold Protobuf.HoldsData at hdata
  omega

/-! ## Responses -/

/-- A serialised envelope that parses again does not start with a zero byte. -/
theorem ne_zero_of_head (hzero : pb.RejectsFieldZero) {e : StreamEnvelope} (hrt : pb.RoundTrips e)
    {b : UInt8} {rest : Bytes} (h : pb.serializeAsString e = b :: rest) : b ≠ 0 := by
  rintro rfl
  rw [Protobuf.RoundTrips, h, (hzero rest 0).1] at hrt
  cases hrt

/-- The input of a client that waits for more than any datagram can bring: nothing, or less than
16 MiB that do not start with a zero byte. -/
def Waiting (buf : Buffer) : Prop := ∀ b rest, buf = b :: rest → b ≠ 0 ∧ buf.length < 256 ^ 3

/-- Nothing is a front of every frame. -/
theorem waiting_nil : Waiting [] := fun _ _ h => nomatch h

variable (pb) in
/-- **A waiting client keeps waiting**, or drops what it has: it delivers nothing. -/
theorem TcpClientProtocol.onDataReceived_waiting (g : MessageHandler σ) (s : ClientSession σ) {buf : Buffer}
    (hbuf : Waiting buf) :
    ∃ buf', (buf' = buf ∨ buf' = []) ∧
      TcpClientProtocol.onDataReceived pb (some g) (s, buf) = ({ s with thrown := none }, buf') := by
  -- Too few bytes, a length above the maximum, or a frame that is not complete: one turn in each
  -- case.
  have hleave : ∃ buf', (buf' = buf ∨ buf' = []) ∧
      TcpClientProtocol.turn pb (some g) ({ s with thrown := none }, buf)
        = .leave ({ s with thrown := none }, buf') := by
    by_cases h4 : buf.length < 4
    · exact ⟨buf, .inl rfl, by rw [TcpClientProtocol.turn, if_pos h4]⟩
    · by_cases hmax : TcpClientProtocol.maxLength < (ntohl (buf.take 4)).toNat
      · exact ⟨[], .inr rfl, by
          rw [TcpClientProtocol.turn, if_neg h4, if_pos hmax]
          rfl⟩
      · -- the first byte alone makes the announced length larger than the buffer
        obtain ⟨b, rest, rfl⟩ : ∃ b rest, buf = b :: rest := by
          rcases buf with - | ⟨b, rest⟩
          · simp at h4
          · exact ⟨b, rest, rfl⟩
        obtain ⟨hb, hlen⟩ := hbuf b rest rfl
        have hannounced : 256 ^ 3 ≤ announced (b :: rest) := by
          have htake : (rest.take 3).length = 3 := by
            simp only [List.length_cons] at h4
            rw [List.length_take]
            omega
          have hpos : 0 < b.toNat := by
            have hne : b.toNat ≠ 0 := fun h0 => hb (UInt8.toNat_inj.mp h0)
            omega
          rw [announced, List.take_succ_cons, ofBigEndian_cons, htake]
          exact (Nat.le_mul_of_pos_left _ hpos).trans (Nat.le_add_right _ _)
        have hadd : (4 + ntohl ((b :: rest).take 4)).toNat = 4 + announced (b :: rest) := by
          rw [toNat_four_add (Nat.not_lt.mp hmax), toNat_ntohl_take]
        refine ⟨b :: rest, .inl rfl, ?_⟩
        rw [TcpClientProtocol.turn, if_neg h4, if_neg hmax, hadd, if_neg (by omega)]
  obtain ⟨buf', hbuf', hturn⟩ := hleave
  exact ⟨buf', hbuf', run_of_leave _ hturn⟩

/-- **No response is delivered**, as long as they take less than 16 MiB together. -/
theorem TcpClientProtocol.receiveAll_waiting (hzero : pb.RejectsFieldZero) (g : MessageHandler σ)
    {reads : List Bytes} (hreads : ∀ read ∈ reads, ∃ e, pb.RoundTrips e ∧ pb.serializeAsString e = read)
    (s : ClientSession σ) {buf : Buffer} (hbuf : Waiting buf)
    (hsize : buf.length + reads.flatten.length < 256 ^ 3) :
    (TcpClientProtocol.receiveAll pb (some g) (s, buf) reads).1.delivered = s.delivered := by
  induction reads generalizing s buf with
  | nil => rfl
  | cons read reads ih =>
      obtain ⟨e, hrt, hread⟩ := hreads read List.mem_cons_self
      rw [List.flatten_cons, List.length_append] at hsize
      have hwaiting : Waiting (Buffer.append buf read) := by
        intro b rest h
        refine ⟨?_, by rw [Buffer.append, List.length_append]; omega⟩
        rcases buf with - | ⟨c, buf⟩
        · exact ne_zero_of_head hzero hrt (hread.trans h)
        · obtain ⟨rfl, -⟩ := List.cons_eq_cons.mp h
          exact (hbuf c buf rfl).1
      obtain ⟨buf', hbuf', heq⟩ := TcpClientProtocol.onDataReceived_waiting pb g s hwaiting
      have hrest : ∀ r ∈ reads, ∃ e, pb.RoundTrips e ∧ pb.serializeAsString e = r :=
        fun r hr => hreads r (List.mem_cons_of_mem _ hr)
      rw [TcpClientProtocol.receiveAll, List.foldl_cons, heq]
      rcases hbuf' with rfl | rfl
      · exact ih hrest { s with thrown := none } hwaiting
          (by rw [Buffer.append, List.length_append]; omega)
      · exact ih hrest { s with thrown := none } waiting_nil (by rw [List.length_nil]; omega)

/-- The bytes of the responses a client gets. -/
theorem udpDelivered_eq_nil (hzero : pb.RejectsFieldZero) (g : MessageHandler σ) (app : σ)
    {responses : List StreamEnvelope} (hrt : ∀ r ∈ responses, pb.RoundTrips r)
    (hsize : (responses.map pb.serializeAsString).flatten.length < 256 ^ 3) :
    udpDelivered pb g app responses = [] := by
  have hdatagrams : (responses.flatMap fun r => UdpStreamContext.datagram pb (.write r))
      = responses.map pb.serializeAsString := by
    induction responses with
    | nil => rfl
    | cons r responses ih =>
        rw [List.flatMap_cons, ih fun r hr => hrt r (List.mem_cons_of_mem _ hr), List.map_cons]
        · rfl
        · rw [List.map_cons, List.flatten_cons, List.length_append] at hsize
          omega
  have hpref := List.takeWhile_prefix (· ≠ []) (l := responses.map pb.serializeAsString)
  rw [udpDelivered, hdatagrams]
  refine TcpClientProtocol.receiveAll_waiting hzero g (fun read hread => ?_) _ waiting_nil ?_
  · obtain ⟨r, hr, rfl⟩ := List.mem_map.mp (hpref.subset hread)
    exact ⟨r, hrt r hr, rfl⟩
  · obtain ⟨later, hlater⟩ := hpref
    rw [← hlater, List.flatten_append, List.length_append] at hsize
    rw [List.length_nil]
    omega

/-- **No envelope makes the round trip over UDP.** For every envelope small enough for one datagram,
the stream handler of the server is not called with what the client sent, and the message handler of
the client is not called with what the server wrote, be it the first response or one after any
others, as long as all of them take less than 16 MiB. -/
theorem udp_round_trip_never (hzero : pb.RejectsFieldZero) {e : StreamEnvelope}
    (hrt : pb.RoundTrips e) (hdata : pb.HoldsData e)
    (hsize : 4 + (pb.serializeAsString e).length ≤ maxDatagram) :
    (∀ (h : EchoUdpHandler σ) (f : StreamHandler σ), h.streamHandler = some f →
      h.rawHandler = none → ∀ (s : UdpSession σ) (idCounter : ℕ),
      ¬ ServerReceives pb h s e idCounter) ∧
    ∀ (g : MessageHandler σ) (app : σ) (earlier : List StreamEnvelope),
      (∀ r ∈ earlier, pb.RoundTrips r) →
      ((earlier ++ [e]).map pb.serializeAsString).flatten.length < 256 ^ 3 →
      ¬ ClientReceives pb g app earlier e := by
  have hshort : (pb.serializeAsString e).length < 256 ^ 3 := by
    unfold maxDatagram at hsize
    omega
  constructor
  · intro h f hf hraw s idCounter hreceives
    rw [ServerReceives, dispatched_udpRequest hzero hshort hf hraw] at hreceives
    exact fallback_frame_ne hdata (List.cons_eq_cons.mp (List.append_cancel_left hreceives)).1
  · intro g app earlier hearlier htotal hreceives
    have hall : ∀ r ∈ earlier ++ [e], pb.RoundTrips r := by
      intro r hr
      rcases List.mem_append.mp hr with hr | hr
      · exact hearlier r hr
      · rwa [List.mem_singleton.mp hr]
    have hfront : (earlier.map pb.serializeAsString).flatten.length < 256 ^ 3 := by
      rw [List.map_append, List.flatten_append, List.length_append] at htotal
      omega
    rw [ClientReceives, udpDelivered_eq_nil hzero g app hall htotal,
      udpDelivered_eq_nil hzero g app hearlier hfront] at hreceives
    cases hreceives

/-- This wire format has no field of number zero. -/
theorem rejectsFieldZero_shortPayload : Protobuf.shortPayload.RejectsFieldZero :=
  fun _ _ => ⟨rfl, rfl⟩

/-- An envelope with the payload `hi`, in both directions. -/
theorem udp_round_trip_never_short :
    let pb := Protobuf.shortPayload
    let e : StreamEnvelope := { payload := some { data := bytesOf "hi" } }
    (∀ (h : EchoUdpHandler Unit) (f : StreamHandler Unit), h.streamHandler = some f →
      h.rawHandler = none → ∀ (s : UdpSession Unit) (idCounter : ℕ),
      ¬ ServerReceives pb h s e idCounter) ∧
    ∀ (g : MessageHandler Unit) (app : Unit) (earlier : List StreamEnvelope),
      (∀ r ∈ earlier, pb.RoundTrips r) →
      ((earlier ++ [e]).map pb.serializeAsString).flatten.length < 256 ^ 3 →
      ¬ ClientReceives pb g app earlier e := by
  intro pb e
  have hdata : pb.HoldsData e := by
    unfold Protobuf.HoldsData
    decide
  exact udp_round_trip_never rejectsFieldZero_shortPayload (by decide) hdata (by decide)

/-- The round trip fails for a request and for a response with the payload `hi`: the server
is called with a packet of ten bytes, the client with nothing. -/
theorem udp_round_trip_fails :
    ¬ ∀ (pb : Protobuf) (e : StreamEnvelope), pb.RejectsFieldZero → pb.RoundTrips e →
      4 + (pb.serializeAsString e).length ≤ maxDatagram →
      ServerReceives pb { streamHandler := some (answer []) } { app := () } e 0 ∧
        ClientReceives pb ignore () [] e := by
  intro hall
  let e : StreamEnvelope := { payload := some { data := bytesOf "hi" } }
  obtain ⟨hserver, -⟩ := hall Protobuf.shortPayload e rejectsFieldZero_shortPayload
    (by decide) (by decide)
  unfold ServerReceives at hserver
  exact absurd hserver (by decide)

end NetworkLib
