import NetworkLib.Theory.Cutting
import NetworkLib.Client.GrpcInput
import NetworkLib.Protocols.Grpc.GrpcHandler
import NetworkLib.Protocols.Http2.SessionInput

/-! # Messages and DATA frames

The messages of a gRPC stream may be cut into DATA frames in any way. Both the server and the client
decode one message from the payload of each DATA frame by itself, so that they deliver the messages
exactly if each payload that is not empty is one message (`delivers_iff`). -/

namespace NetworkLib

open Http2

/-! ## The codec -/

namespace GrpcCodec

/-- A message decoded fits in the bytes it was decoded from. -/
theorem length_of_decode {p : Bytes} {m : Bytes × Bool} (h : (decode p).1 = some m) :
    (encode m.1 m.2).length ≤ p.length := by
  unfold decode at h
  split at h
  · cases h
  · simp only at h
    split at h
    · cases h
    · next hshort hlen =>
        cases h
        simp only [length_encode, List.length_take, List.length_drop, kHeaderSize] at *
        omega

/-- **A message is decoded**, if its length fits in four bytes. -/
theorem decode_encode {m : Bytes × Bool} (h : m.1.length < 2 ^ 32) :
    (decode (encode m.1 m.2)).1 = some m := by
  obtain ⟨payload, compressed⟩ := m
  have hsize : (UInt32.ofNat payload.length).toNat = payload.length :=
    UInt32.toNat_ofNat_of_lt' h
  have htake : ((encode payload compressed).drop 1).take 4 = htonl (UInt32.ofNat payload.length) := by
    simp [encode]
  have hdrop : (encode payload compressed).drop kHeaderSize = payload := by
    rw [encode, List.drop_left' (by simp [kHeaderSize])]
  have hflag : decide ((encode payload compressed).getD 0 0 ≠ 0) = compressed := by
    cases compressed <;> rfl
  unfold decode
  rw [length_encode, if_neg (by omega)]
  simp only [htake, ntohl_htonl, hsize, lt_self_iff_false, if_false, hdrop, List.take_length, hflag]

end GrpcCodec

/-! ## Frames of one stream -/

/-- A frame on a connection whose DATA frames are all on the stream `id`. -/
structure StreamFrame (id : ℕ) where
  type : FrameType
  flags : UInt8
  streamId : ℕ
  payload : Bytes
  length_lt : payload.length < 2 ^ 24
  streamId_lt : streamId < 2 ^ 31
  onStream : type = FrameType.data → streamId = id

namespace StreamFrame

/-- Stream 1 has an id. -/
theorem one_lt : 1 < 2 ^ 31 := by decide

/-- A frame on stream 1 belongs to it. -/
theorem onStream_one (type : FrameType) : type = FrameType.data → 1 = 1 := fun _ => rfl

variable {id : ℕ}

/-- The header and the payload on the wire. -/
def message (x : StreamFrame id) : Bytes × Bytes :=
  (frameHeader x.payload.length x.type x.flags x.streamId, x.payload)

/-- The frame as it is read. -/
def frame (x : StreamFrame id) : Frame where
  header := { length := x.payload.length, type := x.type, flags := x.flags, streamId := x.streamId }
  payload := x.payload

/-- The bytes of some frames. -/
def wire (xs : List (StreamFrame id)) : Bytes := HeaderFormat.wire (xs.map message)

/-- The payloads of the DATA frames. -/
def dataPayloads (xs : List (StreamFrame id)) : List Bytes :=
  (xs.filter fun x => x.type = FrameType.data).map payload

/-- The header is read back. -/
theorem ofBytes_message (x : StreamFrame id) : FrameHeader.ofBytes x.message.1 = x.frame.header := by
  rw [message, ofBytes_frameHeader, Nat.mod_eq_of_lt x.length_lt, Nat.mod_eq_of_lt x.streamId_lt]
  rfl

/-- The frames are read back. -/
theorem split_wire (xs : List (StreamFrame id)) : format.split (wire xs) = (xs.map message, []) := by
  have hmessages : ∀ m ∈ xs.map message, format.IsMessage m := by
    intro m hm
    obtain ⟨x, -, rfl⟩ := List.mem_map.mp hm
    exact ⟨length_frameHeader .., congrArg FrameHeader.length (ofBytes_message x)⟩
  have htail : format.Incomplete [] := .inl (show (0 : ℕ) < 9 by decide)
  have hsplit := HeaderFormat.split_wire hmessages htail
  rwa [List.append_nil] at hsplit

/-- So are all the frames. -/
theorem frames_wire (xs : List (StreamFrame id)) : frames (wire xs) = xs.map frame := by
  rw [frames, split_wire, List.map_map]
  refine List.map_congr_left fun x _ => ?_
  simp only [Function.comp_apply, ofBytes_message]
  rfl

/-- The frames that carry data, as a session sees them. -/
theorem isData_frame (hid : 0 < id) (x : StreamFrame id) :
    x.frame.IsData ↔ x.type = FrameType.data := by
  refine ⟨fun h => h.2, fun h => ⟨?_, h⟩⟩
  rw [show x.frame.header.streamId = id from x.onStream h]
  exact hid

/-- The data a session takes from the frames. -/
theorem data_frames (hid : 0 < id) (xs : List (StreamFrame id)) :
    ((frames (wire xs)).filter fun x => x.IsData).map Frame.payload = dataPayloads xs := by
  rw [frames_wire, List.filter_map, List.map_map, dataPayloads]
  refine congrArg (List.map payload) (List.filter_congr fun x _ => ?_)
  simp only [Function.comp_apply, isData_frame hid]

end StreamFrame

/-! ## What the two sides deliver -/

/-- The message at the front of a payload. -/
def firstMessage (p : Bytes) : Option (Bytes × Bool) := (GrpcCodec.decode p).1

/-- What is made of the first messages, payload by payload or all at once. -/
theorem flatMap_firstMessage {β : Type*} (g : Bytes × Bool → β) (ps : List Bytes) :
    (ps.flatMap fun p => ((firstMessage p).map g).toList) = (ps.filterMap firstMessage).map g := by
  rw [List.map_filterMap, List.filterMap_eq_flatMap_toList]

namespace Http2.Session

variable {α ε : Type*}

/-- A callback that keeps a log, and logs what is in the payload, logs the DATA payloads in order.
-/
theorem foldl_handleFrame_log {g : OnStreamData (α × List ε)} {h : Bytes → List ε}
    (hg : ∀ a stream data, (g a stream data).1.2 = a.2 ++ h data) (s : Session (α × List ε))
    (fs : List Frame) :
    (fs.foldl (handleFrame (some g)) s).app.2
      = s.app.2 ++ ((fs.filter fun x => x.IsData).map Frame.payload).flatMap h := by
  induction fs generalizing s with
  | nil => exact (List.append_nil _).symm
  | cons x fs ih =>
      have hget : (s.getStream x.header.streamId).1.app = s.app := by
        unfold getStream
        cases s.streams x.header.streamId <;> rfl
      rw [List.foldl_cons, ih]
      by_cases hid : 0 < x.header.streamId
      · by_cases htype : x.header.type = FrameType.data
        · have hdata : x.IsData := ⟨hid, htype⟩
          rw [List.filter_cons_of_pos (by simpa using hdata), List.map_cons, List.flatMap_cons,
            ← List.append_assoc]
          simp only [handleFrame, hid, htype, if_true, notify, hg, hget]
        · have hdata : ¬ x.IsData := fun h => htype h.2
          rw [List.filter_cons_of_neg (by simpa using hdata)]
          simp only [handleFrame, hid, htype, if_true, if_false, hget]
      · have hdata : ¬ x.IsData := fun h => hid h.1
        rw [List.filter_cons_of_neg (by simpa using hdata)]
        simp only [handleFrame, hid, if_false]

end Http2.Session

namespace GrpcHandler

variable {σ : Type*} {pb : Protobuf}

/-- **The server dispatches the first message of each DATA payload.** -/
theorem serve_dispatched {f : StreamHandler σ} (hf : ThrowsStd f) (app : σ) {id : ℕ} (hid : 0 < id)
    (xs : List (StreamFrame id)) {reads : List Bytes}
    (h : reads.flatten = kClientPreface ++ StreamFrame.wire xs) :
    (serve pb f app reads).app.2
      = ((StreamFrame.dataPayloads xs).filterMap firstMessage).map fun m => request pb m.1 := by
  have hstrip := Http2.Session.session_of_no_throw
    (fun a stream data => onStreamData_thrown pb hf a stream data) (app, []) h
  have happ : (serve pb f app reads).app = ((frames (StreamFrame.wire xs)).foldl
      (Http2.Session.handleFrame (some (onStreamData pb f)))
      (Http2.Session.started (app, []))).app := by
    rw [← hstrip]
    rfl
  rw [happ, Http2.Session.foldl_handleFrame_log (onStreamData_dispatched pb f),
    StreamFrame.data_frames hid]
  exact (List.nil_append _).trans (flatMap_firstMessage (fun m => request pb m.1) _)

end GrpcHandler

namespace GrpcClientProtocol

variable {σ : Type*} {pb : Protobuf}

/-- The client delivers the first message of a payload, if it parses. -/
theorem handleData_delivered (f : MessageHandler σ) (s : ClientSession σ) (payload : Bytes) :
    (handleData pb (some f) s payload).delivered
      = s.delivered ++ ((firstMessage payload).bind fun m => pb.parseFromString m.1).toList := by
  unfold handleData firstMessage
  cases (GrpcCodec.decode payload).1 with
  | none => exact (List.append_nil _).symm
  | some m =>
      cases h : pb.parseFromString m.1 with
      | none => simp [h]
      | some env => simp [h, ClientSession.deliver]

/-- A list of frames is handled by handling its DATA payloads. -/
theorem foldl_handleMessage_delivered (f : MessageHandler σ) {id : ℕ} (xs : List (StreamFrame id))
    (p : ClientSession σ × List ConnCall) :
    ((xs.map StreamFrame.message).foldl (handleMessage pb (some f)) p).1.delivered
      = p.1.delivered ++ (StreamFrame.dataPayloads xs).flatMap fun payload =>
          ((firstMessage payload).bind fun m => pb.parseFromString m.1).toList := by
  -- Induction on the frames: a DATA frame delivers its first message, any other frame nothing.
  induction xs generalizing p with
  | nil => exact (List.append_nil _).symm
  | cons x xs ih =>
      have htype : (FrameHeader.ofBytes x.message.1).type = x.type := by
        rw [StreamFrame.ofBytes_message]
        rfl
      rw [List.map_cons, List.foldl_cons, ih]
      by_cases hdata : x.type = FrameType.data
      · have hsettings : ¬ x.type = FrameType.settings := by
          rw [hdata]
          decide
        have hpayloads : StreamFrame.dataPayloads (x :: xs)
            = x.payload :: StreamFrame.dataPayloads xs := by
          simp [StreamFrame.dataPayloads, hdata]
        rw [hpayloads, List.flatMap_cons, ← List.append_assoc, ← handleData_delivered]
        simp only [handleMessage, htype, if_neg hsettings, if_pos hdata]
        rfl
      · have hpayloads : StreamFrame.dataPayloads (x :: xs) = StreamFrame.dataPayloads xs := by
          simp [StreamFrame.dataPayloads, hdata]
        rw [hpayloads]
        simp only [handleMessage, htype, if_neg hdata]
        split <;> rfl

/-- **The client delivers the first message of each DATA payload**, when it parses. -/
theorem receiveAll_delivered {f : MessageHandler σ} (hf : MessageHandler.NoThrow f) (app : σ)
    {id : ℕ} (xs : List (StreamFrame id)) {reads : List Bytes}
    (h : reads.flatten = StreamFrame.wire xs) :
    (receiveAll pb (some f) (({ app }, []), []) reads).1.1.delivered
      = ((StreamFrame.dataPayloads xs).filterMap firstMessage).filterMap fun m =>
          pb.parseFromString m.1 := by
  rw [receiveAll_eq hf { app } rfl, h, StreamFrame.split_wire, foldl_handleMessage_delivered,
    List.filterMap_filterMap, List.filterMap_eq_flatMap_toList]
  rfl

end GrpcClientProtocol

/-! ## When they deliver all messages -/

/-- A protobuf library in which every string parses, as the payload of an envelope. -/
def Protobuf.raw : Protobuf where
  serializeAsString m := m.getPayload.data
  parseFromString data := some { payload := some { data } }
  parseFromArray data _ := some { payload := some { data } }

/-- A protobuf library in which no string parses. -/
def Protobuf.rejecting : Protobuf where
  serializeAsString m := m.getPayload.data
  parseFromString _ := none
  parseFromArray _ _ := none

/-- The server passes these messages to its stream handler, each once and in order, whatever the
protobuf library makes of them and whatever the handler does, as long as it throws nothing but
`std::exception`s. -/
def ServerDelivers (reads : List Bytes) (messages : List (Bytes × Bool)) : Prop :=
  ∀ (σ : Type) (pb : Protobuf) (f : StreamHandler σ) (app : σ), GrpcHandler.ThrowsStd f →
    (GrpcHandler.serve pb f app reads).app.2 = messages.map fun m => GrpcHandler.request pb m.1

/-- The client passes those of these messages that parse to its message handler, each once and in
order, whatever the handler does, as long as it throws nothing. -/
def ClientDelivers (reads : List Bytes) (messages : List (Bytes × Bool)) : Prop :=
  ∀ (σ : Type) (pb : Protobuf) (f : MessageHandler σ) (app : σ), MessageHandler.NoThrow f →
    (GrpcClientProtocol.receiveAll pb (some f) (({ app }, []), []) reads).1.1.delivered
      = messages.filterMap fun m => pb.parseFromString m.1

/-- The encoding of a message. -/
def encoded (m : Bytes × Bool) : Bytes := GrpcCodec.encode m.1 m.2

/-- How long an encoded message is. -/
theorem length_encoded (m : Bytes × Bool) : (encoded m).length = GrpcCodec.kHeaderSize + m.1.length :=
  GrpcCodec.length_encode m.1 m.2

/-- The first message of an encoded message is that message. -/
theorem firstMessage_encoded {m : Bytes × Bool} (h : m.1.length < 2 ^ 32) :
    firstMessage (encoded m) = some m := by
  rw [firstMessage, encoded]
  exact GrpcCodec.decode_encode h

section Delivery

variable {id : ℕ} {xs : List (StreamFrame id)} {messages : List (Bytes × Bool)}

/-- When each payload is one message, the first messages of the payloads are the messages. -/
theorem filterMap_firstMessage
    (h : (StreamFrame.dataPayloads xs).filter (· ≠ []) = messages.map encoded) :
    (StreamFrame.dataPayloads xs).filterMap firstMessage = messages := by
  refine filterMap_of_filter_eq rfl h fun m _ hm => firstMessage_encoded ?_
  obtain ⟨x, -, hx⟩ := List.mem_map.mp hm
  have hlt : GrpcCodec.kHeaderSize + m.1.length < 2 ^ 24 := by
    rw [← length_encoded, ← hx]
    exact x.length_lt
  exact (Nat.le_add_left _ _).trans_lt (hlt.trans (by norm_num))

/-- When the first messages of the payloads carry the same bytes as the messages, each payload is
one message. -/
theorem one_each (hcut : (StreamFrame.dataPayloads xs).flatten = (messages.map encoded).flatten)
    (h : ((StreamFrame.dataPayloads xs).filterMap firstMessage).map Prod.fst
      = messages.map Prod.fst) :
    (StreamFrame.dataPayloads xs).filter (· ≠ []) = messages.map encoded := by
  refine filter_eq_of_lengths rfl (fun _ _ => GrpcCodec.length_of_decode) hcut ?_
  have hlengths := congrArg (List.map fun b : Bytes => GrpcCodec.kHeaderSize + b.length) h
  rw [List.map_map, List.map_map] at hlengths
  change ((StreamFrame.dataPayloads xs).filterMap firstMessage).map (fun m => (encoded m).length)
    = messages.map fun m => (encoded m).length
  simp only [length_encoded]
  exact hlengths

/-- A stream handler that does nothing. -/
def idle : StreamHandler Unit := fun app _ resp => { app, resp }

/-- It throws nothing. -/
theorem throwsStd_idle : GrpcHandler.ThrowsStd idle := by
  intro app req hthrown
  cases hthrown

/-- **Messages and DATA frames.** For messages of one stream, cut into DATA payloads in any way and
then into reads in any way, each of the two sides delivers every message once and in order exactly
if each payload that is not empty is one message. -/
theorem delivers_iff (hid : 0 < id)
    (hcut : (StreamFrame.dataPayloads xs).flatten = (messages.map encoded).flatten)
    {serverReads clientReads : List Bytes}
    (hserver : serverReads.flatten = kClientPreface ++ StreamFrame.wire xs)
    (hclient : clientReads.flatten = StreamFrame.wire xs) :
    (ServerDelivers serverReads messages ↔
        (StreamFrame.dataPayloads xs).filter (· ≠ []) = messages.map encoded) ∧
      (ClientDelivers clientReads messages ↔
        (StreamFrame.dataPayloads xs).filter (· ≠ []) = messages.map encoded) := by
  refine ⟨⟨fun h => one_each hcut ?_, fun h => ?_⟩, ⟨fun h => one_each hcut ?_, fun h => ?_⟩⟩
  · have hserve := h Unit .rejecting idle () throwsStd_idle
    rw [GrpcHandler.serve_dispatched throwsStd_idle () hid xs hserver] at hserve
    -- what is wrapped can be told from the envelope
    have hdata := congrArg (List.map fun m : StreamEnvelope => m.getPayload.data) hserve
    rw [List.map_map, List.map_map] at hdata
    exact hdata
  · intro σ pb f app hf
    rw [GrpcHandler.serve_dispatched hf app hid xs hserver, filterMap_firstMessage h]
  · have hreceive := h Unit .raw ignore () noThrow_ignore
    rw [GrpcClientProtocol.receiveAll_delivered noThrow_ignore () xs hclient] at hreceive
    have hdata := congrArg (List.map fun m : StreamEnvelope => m.getPayload.data) hreceive
    simp only [Protobuf.raw, List.filterMap_eq_map', List.map_map] at hdata
    exact hdata
  · intro σ pb f app hf
    rw [GrpcClientProtocol.receiveAll_delivered hf app xs hclient, filterMap_firstMessage h]

end Delivery

/-- A DATA frame on stream 1 with this payload. -/
def dataFrame (payload : Bytes) (h : payload.length < 2 ^ 24) : StreamFrame 1 where
  type := FrameType.data
  flags := 0
  streamId := 1
  payload
  length_lt := h
  streamId_lt := StreamFrame.one_lt
  onStream := StreamFrame.onStream_one FrameType.data

/-- Two messages, each in a DATA frame of its own with an empty one between them, are delivered when
the reads are cut inside the first frame and inside the last. -/
theorem delivers_iff_two :
    let messages : List (Bytes × Bool) := [([7], true), ([8, 9], false)]
    let xs := [dataFrame [1, 0, 0, 0, 1, 7] (by decide), dataFrame [] (by decide),
      dataFrame [0, 0, 0, 0, 2, 8, 9] (by decide)]
    let wire := StreamFrame.wire xs
    ServerDelivers [kClientPreface ++ wire.take 5, (wire.drop 5).take 30, (wire.drop 5).drop 30]
        messages ∧
      ClientDelivers [wire.take 5, (wire.drop 5).take 30, (wire.drop 5).drop 30] messages := by
  intro messages xs wire
  have hclient : [wire.take 5, (wire.drop 5).take 30, (wire.drop 5).drop 30].flatten = wire := by
    rw [List.flatten_cons, List.flatten_cons, List.flatten_cons, List.flatten_nil, List.append_nil,
      List.take_append_drop, List.take_append_drop]
  have hserver :
      [kClientPreface ++ wire.take 5, (wire.drop 5).take 30, (wire.drop 5).drop 30].flatten
        = kClientPreface ++ wire := by
    rw [List.flatten_cons, List.append_assoc, ← List.flatten_cons, hclient]
  have hcut : (StreamFrame.dataPayloads xs).flatten = (messages.map encoded).flatten := by decide
  have hiff := delivers_iff (by decide) hcut hserver hclient
  exact ⟨hiff.1.mpr (by decide), hiff.2.mpr (by decide)⟩

/-- Of two messages in one DATA frame, both sides deliver the first only. -/
theorem delivers_fails_on_shared_frame :
    let messages : List (Bytes × Bool) := [([1], false), ([2], false)]
    let xs := [dataFrame [0, 0, 0, 0, 1, 1, 0, 0, 0, 0, 1, 2] (by decide)]
    (StreamFrame.dataPayloads xs).flatten = (messages.map encoded).flatten ∧
      ¬ ServerDelivers [kClientPreface ++ StreamFrame.wire xs] messages ∧
      ¬ ClientDelivers [StreamFrame.wire xs] messages := by
  intro messages xs
  have hfirst : (StreamFrame.dataPayloads xs).filterMap firstMessage = [([1], false)] := by decide
  refine ⟨by decide, fun h => ?_, fun h => ?_⟩
  · have hserve := h Unit .raw idle () throwsStd_idle
    rw [GrpcHandler.serve_dispatched throwsStd_idle () (by decide) xs (List.append_nil _),
      hfirst] at hserve
    cases congrArg List.length hserve
  · have hreceive := h Unit .raw ignore () noThrow_ignore
    rw [GrpcClientProtocol.receiveAll_delivered noThrow_ignore () xs (List.append_nil _),
      hfirst] at hreceive
    cases congrArg List.length hreceive

end NetworkLib
