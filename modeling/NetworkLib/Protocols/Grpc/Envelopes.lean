import Mathlib.Data.List.ReduceOption
import NetworkLib.Protocols.Grpc.DataFrames

/-! # What a gRPC message holds

The client serialises an envelope into the message of a request, and the server parses it back; the
server puts the payload data of a response into a message as it is, and the client parses that as an
envelope. The two agree on requests that name a method, and on responses whose data is a serialised
envelope, for any number of requests on one connection (`grpc_agree`). -/

namespace NetworkLib

open Http2

variable {σ τ : Type*} {pb : Protobuf}

namespace Http2.Session

variable {s : Session σ}

/-- Another frame leaves the application and the connection alone. -/
theorem handleFrame_of_not_data (g : OnStreamData σ) {frame : Frame} (h : ¬ frame.IsData) :
    (handleFrame (some g) s frame).app = s.app ∧ (handleFrame (some g) s frame).calls = s.calls := by
  have hget : (s.getStream frame.header.streamId).1.app = s.app ∧
      (s.getStream frame.header.streamId).1.calls = s.calls := by
    unfold getStream
    cases s.streams frame.header.streamId <;> exact ⟨rfl, rfl⟩
  by_cases hid : 0 < frame.header.streamId
  · have htype : frame.header.type ≠ FrameType.data := fun htype => h ⟨hid, htype⟩
    simp only [handleFrame, hid, htype, if_true, if_false]
    exact hget
  · simp only [handleFrame, hid, if_false]
    exact ⟨trivial, trivial⟩

/-- A DATA frame is handed to the callback, with the stream of its id. -/
theorem handleFrame_of_data (hs : s.Keyed) (g : OnStreamData σ) {frame : Frame} (h : frame.IsData) :
    ∃ stream : Stream, stream.id = frame.header.streamId ∧
      (handleFrame (some g) s frame).app = (g s.app stream frame.payload).1 ∧
      (handleFrame (some g) s frame).calls = s.calls ++ (g s.app stream frame.payload).2.1 := by
  have hget : (s.getStream frame.header.streamId).1.app = s.app ∧
      (s.getStream frame.header.streamId).1.calls = s.calls := by
    unfold getStream
    cases s.streams frame.header.streamId <;> exact ⟨rfl, rfl⟩
  refine ⟨(s.getStream frame.header.streamId).2.appendData frame.payload, ?_, ?_, ?_⟩
  · rw [(getStream_spec hs frame.header.streamId).2.1]
    rfl
  · simp only [handleFrame, h.1, h.2, if_true, notify, hget.1]
  · simp only [handleFrame, h.1, h.2, if_true, notify, hget.1, hget.2]

end Http2.Session

/-! ## Requests -/

/-- A request that fits in its frames, of an envelope that the protobuf library gives back. -/
structure GrpcRequest (pb : Protobuf) where
  envelope : StreamEnvelope
  roundTrips : pb.RoundTrips envelope
  block_lt : (HpackEncoder.encode (GrpcClientProtocol.headers envelope)).length < 2 ^ 24
  size_lt : (GrpcCodec.encode (pb.serializeAsString envelope) false).length < 2 ^ 24

/-- An envelope to respond with, as a serialisation that fits in a frame. -/
structure GrpcResponse (pb : Protobuf) where
  envelope : StreamEnvelope
  roundTrips : pb.RoundTrips envelope
  size_lt : (GrpcCodec.encode (pb.serializeAsString envelope) false).length < 2 ^ 24

/-- The payload data of a response. -/
def GrpcResponse.data (y : GrpcResponse pb) : Bytes := pb.serializeAsString y.envelope

/-- A message with this data fits in a frame. -/
theorem GrpcResponse.length_data_lt (y : GrpcResponse pb) :
    (GrpcCodec.encode y.data false).length < 2 ^ 24 := y.size_lt

/-- The SETTINGS frame the client sends first. -/
def settingsFrame : StreamFrame 1 where
  type := FrameType.settings
  flags := 0
  streamId := 0
  payload := []
  length_lt := by decide
  streamId_lt := by decide
  onStream := by decide

/-- A DATA frame of a gRPC message. -/
def messageFrame (flags : UInt8) (data : Bytes)
    (h : (GrpcCodec.encode data false).length < 2 ^ 24) : StreamFrame 1 where
  type := FrameType.data
  flags
  streamId := 1
  payload := GrpcCodec.encode data false
  length_lt := h
  streamId_lt := StreamFrame.one_lt
  onStream := StreamFrame.onStream_one FrameType.data

namespace GrpcRequest

/-- The HEADERS frame of a request. -/
def headersFrame (x : GrpcRequest pb) : StreamFrame 1 where
  type := FrameType.headers
  flags := 0x4
  streamId := 1
  payload := HpackEncoder.encode (GrpcClientProtocol.headers x.envelope)
  length_lt := x.block_lt
  streamId_lt := StreamFrame.one_lt
  onStream := by decide

/-- The DATA frame of a request. -/
def dataFrame (x : GrpcRequest pb) : StreamFrame 1 :=
  messageFrame 0x1 (pb.serializeAsString x.envelope) x.size_lt

/-- The frames of a request. -/
def frames (x : GrpcRequest pb) : List (StreamFrame 1) := [x.headersFrame, x.dataFrame]

end GrpcRequest

/-- What the client writes on a connection. -/
def sentRequests (xs : List (GrpcRequest pb)) : Bytes :=
  sentBytes (GrpcClientProtocol.onConnect
    ++ xs.flatMap fun x => GrpcClientProtocol.send pb x.envelope)

/-- The frames of several messages, one after another. -/
theorem wire_append (ys zs : List (StreamFrame 1)) :
    StreamFrame.wire (ys ++ zs) = StreamFrame.wire ys ++ StreamFrame.wire zs := by
  rw [StreamFrame.wire, List.map_append, HeaderFormat.wire_append]
  rfl

/-- What the client writes for a request are its two frames. -/
theorem sentBytes_request (x : GrpcRequest pb) :
    sentBytes (GrpcClientProtocol.send pb x.envelope) = StreamFrame.wire x.frames := by
  simp only [GrpcClientProtocol.send, sentBytes, GrpcRequest.frames, GrpcRequest.headersFrame,
    GrpcRequest.dataFrame, messageFrame, StreamFrame.wire, StreamFrame.message, List.flatMap_cons,
    List.flatMap_nil, ConnCall.bytes, List.map_cons, List.map_nil, HeaderFormat.wire_cons,
    HeaderFormat.wire_nil, List.append_nil, List.append_assoc]

/-- **What the client writes** is its preface and the frames of the requests behind a SETTINGS
frame. -/
theorem sentRequests_eq (xs : List (GrpcRequest pb)) :
    sentRequests xs
      = kClientPreface ++ StreamFrame.wire (settingsFrame :: xs.flatMap GrpcRequest.frames) := by
  have hconnect : sentBytes GrpcClientProtocol.onConnect
      = kClientPreface ++ StreamFrame.wire [settingsFrame] := by
    have hsettings : frameHeader 0 FrameType.settings 0 0
        = [0, 0, 0, FrameType.settings, 0, 0, 0, 0, 0] := by decide
    simp only [GrpcClientProtocol.onConnect, sentBytes, settingsFrame, StreamFrame.wire,
      StreamFrame.message, List.flatMap_cons, List.flatMap_nil, ConnCall.bytes, List.map_cons,
      List.map_nil, HeaderFormat.wire_cons, HeaderFormat.wire_nil, List.length_nil, hsettings,
      List.append_nil]
    rfl
  have hsend : sentBytes (xs.flatMap fun x => GrpcClientProtocol.send pb x.envelope)
      = StreamFrame.wire (xs.flatMap GrpcRequest.frames) := by
    induction xs with
    | nil => rfl
    | cons x xs ih =>
        rw [List.flatMap_cons, List.flatMap_cons, sentBytes_append, sentBytes_request, ih, wire_append]
  rw [sentRequests, sentBytes_append, hconnect, hsend, List.append_assoc, ← wire_append]
  rfl

/-- The envelope names a method. -/
def Names (e : StreamEnvelope) : Prop :=
  e.header.isSome ∧ ¬ e.getHeader.messageType.isEmpty

instance (e : StreamEnvelope) : Decidable (Names e) := inferInstanceAs (Decidable (_ ∧ _))

/-- What the server takes a request for: the envelope itself when it names a method. -/
theorem request_serialize {e : StreamEnvelope} (he : pb.RoundTrips e) :
    GrpcHandler.request pb (pb.serializeAsString e)
      = if Names e then e else GrpcHandler.wrapped (pb.serializeAsString e) := by
  unfold GrpcHandler.request
  rw [show pb.parseFromString (pb.serializeAsString e) = some e from he]
  by_cases h : Names e
  · have hnamed : ¬ (e.header.isNone = true ∨ e.getHeader.messageType.isEmpty = true) := by
      rintro (hnone | hempty)
      · have hsome := h.1
        rw [Option.isNone_iff_eq_none.mp hnone] at hsome
        cases hsome
      · exact h.2 hempty
    simp only [if_pos h, if_neg hnamed]
  · have hunnamed : e.header.isNone = true ∨ e.getHeader.messageType.isEmpty = true := by
      by_cases hsome : e.header.isSome = true
      · exact .inr (not_not.mp fun hempty => h ⟨hsome, hempty⟩)
      · exact .inl (by simpa using hsome)
    simp only [if_neg h, if_pos hunnamed]

/-- The request that the server makes of one sent. -/
def GrpcRequest.received (x : GrpcRequest pb) : StreamEnvelope :=
  if Names x.envelope then x.envelope else GrpcHandler.wrapped (pb.serializeAsString x.envelope)

/-- The DATA payloads of some requests: one each. -/
theorem dataPayloads_requests (xs : List (GrpcRequest pb)) :
    StreamFrame.dataPayloads (settingsFrame :: xs.flatMap GrpcRequest.frames)
      = xs.map fun x => GrpcCodec.encode (pb.serializeAsString x.envelope) false := by
  have hsettings (ys : List (StreamFrame 1)) :
      StreamFrame.dataPayloads (settingsFrame :: ys) = StreamFrame.dataPayloads ys := rfl
  rw [hsettings]
  induction xs with
  | nil => rfl
  | cons x xs ih =>
      rw [List.flatMap_cons, List.map_cons, ← ih]
      rfl

/-- A message that fits in a frame is read back. -/
theorem firstMessage_of_size {data : Bytes} (h : (GrpcCodec.encode data false).length < 2 ^ 24) :
    firstMessage (GrpcCodec.encode data false) = some (data, false) := by
  refine firstMessage_encoded (m := (data, false)) ?_
  rw [GrpcCodec.length_encode] at h
  exact (Nat.le_add_left _ _).trans_lt (h.trans (by norm_num))

/-- **The server gets the requests**, each once and in order: the envelope sent, or what is made of
one without a method. -/
theorem serve_requests (xs : List (GrpcRequest pb)) {f : StreamHandler σ}
    (hf : GrpcHandler.ThrowsStd f) (app : σ) {reads : List Bytes}
    (h : reads.flatten = sentRequests xs) :
    (GrpcHandler.serve pb f app reads).app.2 = xs.map GrpcRequest.received := by
  rw [sentRequests_eq] at h
  rw [GrpcHandler.serve_dispatched hf app (by decide) _ h, dataPayloads_requests,
    List.filterMap_map, List.map_filterMap]
  have hone : ∀ x ∈ xs, ((firstMessage ∘ fun x : GrpcRequest pb =>
      GrpcCodec.encode (pb.serializeAsString x.envelope) false) x).map
        (fun m => GrpcHandler.request pb m.1) = some x.received := by
    intro x _
    rw [Function.comp_apply, firstMessage_of_size x.size_lt, Option.map_some,
      request_serialize x.roundTrips]
    rfl
  rw [List.filterMap_congr hone, List.filterMap_eq_map']

/-! ## Responses -/

/-- The runs of the stream handler on some requests, one after another. -/
def runsOn (f : StreamHandler σ) : σ → List StreamEnvelope → List (HandlerRun σ)
  | _, [] => []
  | app, req :: reqs => f app req {} :: runsOn f (f app req {}).app reqs

/-- How one run of the stream handler answers its request: with this payload data, or not at all. -/
structure Responds (run : HandlerRun σ) (response : Option Bytes) : Prop where
  payload : run.resp.payload = response.map fun data => { data }
  calls : run.calls = []
  thrown : run.thrown = none

/-- What a response is on the connection. -/
def responseCalls (response : Option Bytes) : List ConnCall :=
  match response with
  | none => []
  | some data => GrpcHandler.writeString 1 data ++ GrpcHandler.close 1

/-- What the callback makes of a message that is answered. -/
theorem onStreamData_responds {f : StreamHandler σ} {payload : Bytes} {m : Bytes × Bool}
    (hm : firstMessage payload = some m) {a : σ × List StreamEnvelope} {stream : Stream}
    (hstream : stream.id = 1) {response : Option Bytes}
    (hf : Responds (f a.1 (GrpcHandler.request pb m.1) {}) response) :
    (GrpcHandler.onStreamData pb f a stream payload).2.1 = responseCalls response ∧
      (GrpcHandler.onStreamData pb f a stream payload).1.1
        = (f a.1 (GrpcHandler.request pb m.1) {}).app := by
  obtain ⟨hresp, hcalls, hthrown⟩ := hf
  rw [firstMessage] at hm
  cases response with
  | none =>
      rw [Option.map_none] at hresp
      simp [GrpcHandler.onStreamData, hm, hthrown, hresp, hcalls, responseCalls]
  | some data =>
      rw [Option.map_some] at hresp
      simp [GrpcHandler.onStreamData, hm, hthrown, hresp, hcalls, responseCalls, hstream,
        GrpcHandler.write, StreamEnvelope.getPayload]

/-- The HEADERS frame of a request carries no data. -/
theorem GrpcRequest.headersFrame_not_isData (x : GrpcRequest pb) : ¬ x.headersFrame.frame.IsData := by
  rintro ⟨-, htype⟩
  exact absurd htype (show FrameType.headers ≠ FrameType.data by decide)

/-- The DATA frame of a request carries its message. -/
theorem GrpcRequest.dataFrame_isData (x : GrpcRequest pb) : x.dataFrame.frame.IsData := by
  refine (StreamFrame.isData_frame (by decide) x.dataFrame).mpr ?_
  rfl

/-- The two frames of a request are handled one after the other. -/
theorem GrpcRequest.foldl_frames {β : Type*} (g : β → Frame → β) (b : β) (x : GrpcRequest pb) :
    (x.frames.map StreamFrame.frame).foldl g b = g (g b x.headersFrame.frame) x.dataFrame.frame :=
  rfl

/-- **A request is answered on the connection** by the session that handles its two frames. -/
theorem handle_request {f : StreamHandler σ} {s : Http2.Session (σ × List StreamEnvelope)}
    (hs : s.Keyed) (x : GrpcRequest pb) {response : Option Bytes}
    (hf : Responds (f s.app.1 x.received {}) response) :
    let t := (x.frames.map StreamFrame.frame).foldl
      (Http2.Session.handleFrame (some (GrpcHandler.onStreamData pb f))) s
    t.Keyed ∧ t.calls = s.calls ++ responseCalls response ∧
      t.app.1 = (f s.app.1 x.received {}).app := by
  intro t
  have hpayload : x.dataFrame.frame.payload
      = GrpcCodec.encode (pb.serializeAsString x.envelope) false := rfl
  set u := Http2.Session.handleFrame (some (GrpcHandler.onStreamData pb f)) s x.headersFrame.frame
    with hu
  have ht : t = Http2.Session.handleFrame (some (GrpcHandler.onStreamData pb f)) u
      x.dataFrame.frame := x.foldl_frames _ s
  have hkeyed : u.Keyed := (Http2.Session.handleFrame_spec hs x.headersFrame.frame).1
  -- the HEADERS frame reaches no handler, the DATA frame hands its message over
  obtain ⟨happ, hcalls⟩ :=
    Http2.Session.handleFrame_of_not_data (s := s) (GrpcHandler.onStreamData pb f)
      x.headersFrame_not_isData
  obtain ⟨stream, hid, happ', hcalls'⟩ :=
    Http2.Session.handleFrame_of_data hkeyed (GrpcHandler.onStreamData pb f) x.dataFrame_isData
  rw [← hu] at happ hcalls
  rw [happ, hpayload] at happ' hcalls'
  have hreceived : GrpcHandler.request pb (pb.serializeAsString x.envelope) = x.received :=
    request_serialize x.roundTrips
  rw [← hreceived] at hf ⊢
  obtain ⟨hanswer, hrun⟩ := onStreamData_responds (firstMessage_of_size x.size_lt) hid hf
  rw [ht]
  refine ⟨(Http2.Session.handleFrame_spec hkeyed x.dataFrame.frame).1, ?_, ?_⟩
  · rw [hcalls', hcalls, hanswer]
  · rw [happ', hrun]

/-- **Requests are answered on the connection**, one after another. -/
theorem handle_requests {f : StreamHandler σ} {s : Http2.Session (σ × List StreamEnvelope)}
    (hs : s.Keyed) {xs : List (GrpcRequest pb)} {responses : List (Option Bytes)}
    (hf : List.Forall₂ Responds (runsOn f s.app.1 (xs.map GrpcRequest.received)) responses) :
    (((xs.flatMap GrpcRequest.frames).map StreamFrame.frame).foldl
        (Http2.Session.handleFrame (some (GrpcHandler.onStreamData pb f))) s).calls
      = s.calls ++ responses.flatMap responseCalls := by
  induction xs generalizing s responses with
  | nil =>
      cases hf
      exact (List.append_nil _).symm
  | cons x xs ih =>
      rw [List.map_cons, runsOn] at hf
      obtain ⟨response, responses, hfirst, hrest, rfl⟩ := List.forall₂_cons_left_iff.mp hf
      obtain ⟨hkeyed, hcalls, happ⟩ := handle_request hs x hfirst
      rw [← happ] at hrest
      rw [List.flatMap_cons, List.map_append, List.foldl_append, ih hkeyed hrest, hcalls,
        List.flatMap_cons, List.append_assoc]

/-- The calls on the connection for requests that are answered. -/
theorem serve_responses (xs : List (GrpcRequest pb)) {f : StreamHandler σ}
    (hstd : GrpcHandler.ThrowsStd f) (app : σ) {responses : List (Option Bytes)}
    (hf : List.Forall₂ Responds (runsOn f app (xs.map GrpcRequest.received)) responses)
    {reads : List Bytes} (h : reads.flatten = sentRequests xs) :
    (GrpcHandler.serve pb f app reads).calls = responses.flatMap responseCalls := by
  rw [sentRequests_eq] at h
  have hstrip := Http2.Session.session_of_no_throw
    (fun a stream data => GrpcHandler.onStreamData_thrown pb hstd a stream data) (app, []) h
  have hcalls : (GrpcHandler.serve pb f app reads).calls
      = ((frames (StreamFrame.wire (settingsFrame :: xs.flatMap GrpcRequest.frames))).foldl
          (Http2.Session.handleFrame (some (GrpcHandler.onStreamData pb f)))
          (Http2.Session.started (app, []))).calls := by
    rw [← hstrip]
    rfl
  have hkeyed : (Http2.Session.started ((app, []) : σ × List StreamEnvelope)).Keyed := by
    intro id stream hstream
    cases hstream
  -- the SETTINGS frame does nothing
  have hsettings : ¬ settingsFrame.frame.IsData := by
    rintro ⟨hid, -⟩
    exact absurd hid (by decide)
  set u := Http2.Session.handleFrame (some (GrpcHandler.onStreamData pb f))
    (Http2.Session.started (app, [])) settingsFrame.frame with hu
  obtain ⟨happ, hnone⟩ := Http2.Session.handleFrame_of_not_data
    (s := Http2.Session.started ((app, []) : σ × List StreamEnvelope))
    (GrpcHandler.onStreamData pb f) hsettings
  rw [← hu] at happ hnone
  have hf' : List.Forall₂ Responds (runsOn f u.app.1 (xs.map GrpcRequest.received))
      responses := by
    rw [happ]
    exact hf
  rw [hcalls, StreamFrame.frames_wire, List.map_cons, List.foldl_cons, ← hu,
    handle_requests (Http2.Session.handleFrame_spec hkeyed settingsFrame.frame).1 hf', hnone]
  rfl

/-- The frame that ends the stream. -/
def endFrame : StreamFrame 1 where
  type := FrameType.data
  flags := 0x1
  streamId := 1
  payload := []
  length_lt := by decide
  streamId_lt := StreamFrame.one_lt
  onStream := StreamFrame.onStream_one FrameType.data

/-- The frames of a response. -/
def responseFrames (response : Option (GrpcResponse pb)) : List (StreamFrame 1) :=
  match response with
  | none => []
  | some y => [messageFrame 0 y.data y.length_data_lt, endFrame]

/-- What the server writes for a message of its own is two frames. -/
theorem sentBytes_message {data : Bytes} (h : (GrpcCodec.encode data false).length < 2 ^ 24) :
    sentBytes (GrpcHandler.writeString 1 data ++ GrpcHandler.close 1)
      = StreamFrame.wire [messageFrame 0 data h, endFrame] := by
  have hne : (GrpcCodec.encode data false).isEmpty = false := by simp [GrpcCodec.encode]
  simp only [GrpcHandler.writeString, GrpcHandler.close, Http2.Session.sendStreamData, hne,
    List.isEmpty_nil, sentBytes, StreamFrame.wire, StreamFrame.message, messageFrame, endFrame,
    Bool.false_eq_true, if_true, if_false, List.cons_append, List.nil_append, List.flatMap_cons,
    List.flatMap_nil, ConnCall.bytes, List.map_cons, List.map_nil, HeaderFormat.wire_cons,
    HeaderFormat.wire_nil, List.append_nil, List.append_assoc]

/-- What the server writes for some responses is their frames. -/
theorem sentBytes_responses (responses : List (Option (GrpcResponse pb))) :
    sentBytes ((responses.map (Option.map GrpcResponse.data)).flatMap responseCalls)
      = StreamFrame.wire (responses.flatMap responseFrames) := by
  induction responses with
  | nil => rfl
  | cons response responses ih =>
      rw [List.map_cons, List.flatMap_cons, List.flatMap_cons, sentBytes_append, ih, wire_append]
      cases response with
      | none => rfl
      | some y =>
          rw [Option.map_some, responseCalls, sentBytes_message y.length_data_lt,
            responseFrames]

/-- The messages in the DATA frames of some responses. -/
theorem firstMessages_responses (responses : List (Option (GrpcResponse pb))) :
    (StreamFrame.dataPayloads (responses.flatMap responseFrames)).filterMap firstMessage
      = responses.reduceOption.map fun y => (y.data, false) := by
  have happend (ys zs : List (StreamFrame 1)) : StreamFrame.dataPayloads (ys ++ zs)
      = StreamFrame.dataPayloads ys ++ StreamFrame.dataPayloads zs := by
    rw [StreamFrame.dataPayloads, List.filter_append, List.map_append]
    rfl
  induction responses with
  | nil => rfl
  | cons response responses ih =>
      rw [List.flatMap_cons, happend, List.filterMap_append, ih]
      cases response with
      | none => rfl
      | some y =>
          have hpayloads : StreamFrame.dataPayloads (responseFrames (some y))
              = [GrpcCodec.encode y.data false, []] := rfl
          rw [hpayloads, List.filterMap_cons_some (firstMessage_of_size y.length_data_lt),
            List.reduceOption_cons_of_some, List.map_cons]
          rfl

/-- **The client gets the responses**, each once and in order. -/
theorem receive_responses (responses : List (Option (GrpcResponse pb))) {g : MessageHandler τ}
    (hg : MessageHandler.NoThrow g) (app : τ) {reads : List Bytes}
    (hreads : reads.flatten
      = sentBytes ((responses.map (Option.map GrpcResponse.data)).flatMap responseCalls)) :
    (GrpcClientProtocol.receiveAll pb (some g) (({ app }, []), []) reads).1.1.delivered
      = responses.reduceOption.map GrpcResponse.envelope := by
  rw [sentBytes_responses] at hreads
  rw [GrpcClientProtocol.receiveAll_delivered hg app _ hreads, firstMessages_responses,
    List.filterMap_map]
  have hone : ∀ y ∈ responses.reduceOption, ((fun m : Bytes × Bool => pb.parseFromString m.1) ∘
      fun y : GrpcResponse pb => (y.data, false)) y = some y.envelope := fun y _ => y.roundTrips
  rw [List.filterMap_congr hone, List.filterMap_eq_map']

/-- **A response whose data does not parse is not delivered.** -/
theorem receive_unparsed {data : Bytes} (h : (GrpcCodec.encode data false).length < 2 ^ 24)
    (hparse : pb.parseFromString data = none) {g : MessageHandler τ}
    (hg : MessageHandler.NoThrow g) (app : τ) {reads : List Bytes}
    (hreads : reads.flatten
      = sentBytes (GrpcHandler.writeString 1 data ++ GrpcHandler.close 1)) :
    (GrpcClientProtocol.receiveAll pb (some g) (({ app }, []), []) reads).1.1.delivered = [] := by
  have hpayloads : StreamFrame.dataPayloads [messageFrame 0 data h, endFrame]
      = [GrpcCodec.encode data false, []] := rfl
  rw [sentBytes_message h] at hreads
  rw [GrpcClientProtocol.receiveAll_delivered hg app _ hreads, hpayloads,
    List.filterMap_cons_some (firstMessage_of_size h),
    show [([] : Bytes)].filterMap firstMessage = [] from rfl]
  exact List.filterMap_cons_none hparse

/-- **Requests and responses.** With frames that fit, the server gets each of the requests sent on a
connection once and in order: one that names a method as it was sent, and any other wrapped as the
payload of the default method. When the stream handler answers its requests with payload data that
are serialised envelopes, or not at all, the client gets these envelopes, each once and in order.
All this in any cutting into reads. -/
theorem grpc_agree (pb : Protobuf) (requests : List (GrpcRequest pb)) {f : StreamHandler σ}
    (hf : GrpcHandler.ThrowsStd f) (app : σ) {serverReads : List Bytes}
    (hserver : serverReads.flatten = sentRequests requests) :
    (GrpcHandler.serve pb f app serverReads).app.2 = requests.map GrpcRequest.received ∧
    ∀ responses : List (Option (GrpcResponse pb)),
      List.Forall₂ Responds (runsOn f app (requests.map GrpcRequest.received))
        (responses.map (Option.map GrpcResponse.data)) →
      ∀ (g : MessageHandler τ) (app' : τ) (clientReads : List Bytes), MessageHandler.NoThrow g →
        clientReads.flatten = sentBytes (GrpcHandler.serve pb f app serverReads).calls →
        (GrpcClientProtocol.receiveAll pb (some g) (({ app := app' }, []), [])
          clientReads).1.1.delivered = responses.reduceOption.map GrpcResponse.envelope := by
  refine ⟨serve_requests requests hf app hserver, ?_⟩
  intro responses hresponses g app' clientReads hg hclient
  rw [serve_responses requests hf app hresponses hserver] at hclient
  exact receive_responses responses hg app' hclient

/-- The wire format of an envelope that holds nothing but a short message type: field 1 of the
envelope around field 8 of the header, each with a one-byte length. -/
def Protobuf.shortType : Protobuf where
  serializeAsString m :=
    match m.header with
    | none => []
    | some h =>
        [0x0A, UInt8.ofNat (h.messageType.length + 2), 0x42, UInt8.ofNat h.messageType.length]
          ++ h.messageType
  parseFromString
    | [] => some {}
    | 0x0A :: _ :: 0x42 :: _ :: messageType => some { header := some { messageType } }
    | _ => none
  parseFromArray
    | 0x0A :: _ :: 0x42 :: n :: messageType, _ =>
        some { header := some { messageType := messageType.take n.toNat } }
    | _, _ => none

/-- A request for the method `/a.B/C`, answered with an envelope, and one without a method, which is
not answered. -/
theorem grpc_agree_named :
    let pb := Protobuf.shortType
    let e : StreamEnvelope := { header := some { messageType := bytesOf "/a.B/C" } }
    let m : StreamEnvelope := { header := some { messageType := bytesOf "done" } }
    let f : StreamHandler ℕ := fun n _ resp =>
      { app := n + 1, resp := if n = 0 then resp.setData (pb.serializeAsString m) else resp }
    let reads := [sentBytes (GrpcClientProtocol.onConnect ++ GrpcClientProtocol.send pb e),
      sentBytes (GrpcClientProtocol.send pb {})]
    (GrpcHandler.serve pb f 0 reads).app.2 = [e, GrpcHandler.wrapped []] ∧
      (GrpcClientProtocol.receiveAll pb (some ignore) (({ app := () }, []), [])
        [sentBytes (GrpcHandler.serve pb f 0 reads).calls]).1.1.delivered = [m] := by
  intro pb e m f reads
  let first : GrpcRequest pb := ⟨e, by decide, by decide, by decide⟩
  let second : GrpcRequest pb := ⟨{}, by decide, by decide, by decide⟩
  let response : GrpcResponse pb := ⟨m, by decide, by decide⟩
  have hstd : GrpcHandler.ThrowsStd f := by
    intro app req hthrown
    cases hthrown
  have hserver : reads.flatten = sentRequests [first, second] := by
    rw [sentRequests, List.flatMap_cons, List.flatMap_cons, List.flatMap_nil, ← List.append_assoc,
      List.append_nil, sentBytes_append]
    exact congrArg _ (List.append_nil _)
  -- the second request names nothing, and is handed over as raw bytes
  have hnamed : first.received = e := if_pos (show Names e by decide)
  have hunnamed : second.received = GrpcHandler.wrapped [] := if_neg (show ¬ Names {} by decide)
  obtain ⟨hrequests, hresponses⟩ := grpc_agree (τ := Unit) pb [first, second] hstd 0 hserver
  refine ⟨?_, ?_⟩
  · rw [hrequests, List.map_cons, List.map_cons, List.map_nil, hnamed, hunnamed]
  · refine hresponses [some response, none] ?_ ignore () _ noThrow_ignore (List.append_nil _)
    exact .cons ⟨rfl, rfl, rfl⟩ (.cons ⟨rfl, rfl, rfl⟩ .nil)

/-- A request without a header does not arrive as it was sent, and a response with the data `1` does
not arrive at all. -/
theorem grpc_agree_fails_on_unnamed :
    let e : StreamEnvelope := { payload := some { data := [1] } }
    let reads := [sentBytes (GrpcClientProtocol.onConnect
      ++ GrpcClientProtocol.send .shortPayload e)]
    Protobuf.shortPayload.RoundTrips e ∧
      (GrpcHandler.serve .shortPayload (answer [1]) () reads).app.2 ≠ [e] ∧
      (GrpcClientProtocol.receiveAll .shortPayload (some ignore) (({ app := () }, []), [])
        [sentBytes (GrpcHandler.serve .shortPayload (answer [1]) () reads).calls]).1.1.delivered
          = [] := by
  intro e reads
  have he : Protobuf.shortPayload.RoundTrips e := by decide
  let request : GrpcRequest .shortPayload := ⟨e, he, by decide, by decide⟩
  have hserver : reads.flatten = sentRequests [request] := List.append_nil _
  have hstd : GrpcHandler.ThrowsStd (answer [1]) := by
    intro app req hthrown
    cases hthrown
  refine ⟨he, ?_, ?_⟩
  · have hunnamed : ¬ Names e := by decide
    rw [serve_requests [request] hstd () hserver, List.map_cons, List.map_nil,
      GrpcRequest.received, if_neg hunnamed]
    intro heq
    -- what is wrapped has a header
    cases congrArg StreamEnvelope.header (List.singleton_inj.mp heq)
  · have hresponse : List.Forall₂ Responds (runsOn (answer [1]) () [request.received]) [some [1]] :=
      .cons ⟨rfl, rfl, rfl⟩ .nil
    rw [serve_responses [request] hstd () hresponse hserver, List.flatMap_singleton]
    have hlength : (GrpcCodec.encode [1] false).length < 2 ^ 24 := by decide
    exact receive_unparsed hlength (by decide) noThrow_ignore () (List.append_nil _)

end NetworkLib
