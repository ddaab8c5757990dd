import NetworkLib.Protocols.Grpc.GrpcCodec
import NetworkLib.Protocols.Http2.Session

/-! # The gRPC handler

`GrpcHandler` with a stream handler set: the callback it installs on the HTTP/2 session decodes one
message from each DATA payload and passes it to the stream handler. Without a stream handler the
callback dispatches to the service registry, which is not part of this model. -/

namespace NetworkLib.GrpcHandler

open Http2

variable {σ : Type*} (pb : Protobuf)

/-- The path a message is taken to be for when it names none. -/
def defaultMethod : Bytes := bytesOf "/test.Service/Method"

/-- The envelope made of a message that is none, or that names no method. -/
def wrapped (payload : Bytes) : StreamEnvelope where
  header := some { messageType := defaultMethod }
  payload := some { data := payload }

/-- The request passed to the stream handler for a message. -/
def request (payload : Bytes) : StreamEnvelope :=
  match pb.parseFromString payload with
  | none => wrapped payload
  | some req =>
      if req.header.isNone ∨ req.getHeader.messageType.isEmpty then wrapped payload else req

/-- `GrpcStreamContext::Write(const std::string&)`. -/
def writeString (streamId : ℕ) (data : Bytes) : List ConnCall :=
  Http2.Session.sendStreamData streamId (GrpcCodec.encode data false) false

/-- `GrpcStreamContext::Write(const StreamEnvelope&)`. -/
def write (streamId : ℕ) (msg : StreamEnvelope) : List ConnCall :=
  if msg.payload.isSome then writeString streamId msg.getPayload.data else []

/-- `GrpcStreamContext::Close`. -/
def close (streamId : ℕ) : List ConnCall := Http2.Session.sendStreamData streamId [] true

/-- What a call on a `GrpcStreamContext` does on the connection. -/
def contextCall (streamId : ℕ) : ContextCall → List ConnCall
  | .write msg => write streamId msg
  | .writeString data => writeString streamId data
  | .close => close streamId

/-- The callback `OnConnection` installs, over the state of the application and the requests passed
to the stream handler so far. A `std::exception` is logged; any other leaves. -/
def onStreamData (f : StreamHandler σ) : OnStreamData (σ × List StreamEnvelope)
  | (app, dispatched), stream, data =>
      match (GrpcCodec.decode data).1 with
      -- a payload that holds no whole message is dropped
      | none => ((app, dispatched), [], none)
      | some (payload, _) =>
          let req := request pb payload
          let run := f app req {}
          let calls := run.calls.flatMap (contextCall stream.id)
          -- what the handler has written through its context stands whatever it throws
          match run.thrown with
          | none =>
              let calls :=
                if run.resp.payload.isSome then
                  calls ++ write stream.id run.resp ++ close stream.id
                else calls
              ((run.app, dispatched ++ [req]), calls, none)
          | some .stdException => ((run.app, dispatched ++ [req]), calls, none)
          | some .other => ((run.app, dispatched ++ [req]), calls, some .other)

/-- What becomes of a new connection when `OnMessage` is called after each read. -/
def serve (f : StreamHandler σ) (app : σ) (reads : List Bytes) :
    Http2.Session (σ × List StreamEnvelope) :=
  (Http2.Session.receiveAll (some (onStreamData pb f)) ({ app := (app, []) }, []) reads).1

/-- The stream handler throws nothing but `std::exception`s. -/
def ThrowsStd (f : StreamHandler σ) : Prop := ∀ app req, (f app req {}).thrown ≠ some .other

variable {pb}

/-- What the callback does with a payload that has no whole message at its front. -/
theorem onStreamData_of_none {f : StreamHandler σ} {data : Bytes}
    (h : (GrpcCodec.decode data).1 = none) (app : σ × List StreamEnvelope) (stream : Stream) :
    onStreamData pb f app stream data = (app, [], none) := by
  obtain ⟨app, dispatched⟩ := app
  simp only [onStreamData, h]

variable (pb) in
/-- Nothing leaves the callback when the stream handler throws `std::exception`s alone. -/
theorem onStreamData_thrown {f : StreamHandler σ} (hf : ThrowsStd f)
    (app : σ × List StreamEnvelope) (stream : Stream) (data : Bytes) :
    (onStreamData pb f app stream data).2.2 = none := by
  cases h : (GrpcCodec.decode data).1 with
  | none => rw [onStreamData_of_none h]
  | some m =>
      obtain ⟨payload, compressed⟩ := m
      have hstd := hf app.1 (request pb payload)
      simp only [onStreamData, h]
      cases hthrown : (f app.1 (request pb payload) {}).thrown with
      | none => rfl
      | some x =>
          cases x with
          | stdException => rfl
          | other => exact absurd hthrown hstd

variable (pb) in
/-- The callback dispatches the message at the front of the payload, and no other. -/
theorem onStreamData_dispatched (f : StreamHandler σ) (app : σ × List StreamEnvelope)
    (stream : Stream) (data : Bytes) :
    (onStreamData pb f app stream data).1.2
      = app.2 ++ ((GrpcCodec.decode data).1.map fun m => request pb m.1).toList := by
  cases h : (GrpcCodec.decode data).1 with
  | none =>
      rw [onStreamData_of_none h]
      exact (List.append_nil _).symm
  | some m =>
      simp only [onStreamData, h]
      split <;> rfl

end NetworkLib.GrpcHandler
