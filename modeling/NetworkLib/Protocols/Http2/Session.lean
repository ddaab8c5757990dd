import NetworkLib.Protocols.Handler
import NetworkLib.Protocols.Http2.FrameParser
import NetworkLib.Protocols.Http2.Hpack

/-! # HTTP/2 sessions

`Session` reads the client preface and then frames off the input buffer of its connection, keeps a
`Stream` for every stream id met, and hands the payload of each DATA frame to its callback. The
callback is the protocol handler's; the model lets it act on the connection and throw. -/

namespace NetworkLib.Http2

open Loop

/-- `Stream`. -/
structure Stream where
  id : ℕ
  dataBuffer : Buffer := []
  deriving DecidableEq

/-- `AppendData`. -/
def Stream.appendData (stream : Stream) (data : Bytes) : Stream :=
  { stream with dataBuffer := Buffer.append stream.dataBuffer data }

/-- `SetOnStreamData`: a callback over an application state `σ`, with its calls on the connection
and what it throws. -/
abbrev OnStreamData (σ : Type*) := σ → Stream → Bytes → σ × List ConnCall × Option Thrown

/-- `Session`, with the calls of its callback so far and the calls on its connection. -/
structure Session (σ : Type*) where
  app : σ
  parser : FrameParser := {}
  streams : ℕ → Option Stream := fun _ => none
  prefaceReceived : Bool := false
  notified : List (Stream × Bytes) := []
  calls : List ConnCall := []
  /-- The exception that has left `OnData`, if one has. -/
  thrown : Option Thrown := none

/-- `kClientPreface`. -/
def kClientPreface : Bytes := bytesOf "PRI * HTTP/2.0\r\n\r\nSM\r\n\r\n"

/-- `kPrefaceLen`. -/
def kPrefaceLen : ℕ := 24

namespace Session

variable {σ : Type*}

/-- `GetStream`. -/
def getStream (s : Session σ) (id : ℕ) : Session σ × Stream :=
  match s.streams id with
  | some stream => (s, stream)
  | none => ({ s with streams := Function.update s.streams id (some { id }) }, { id })

/-- Call `on_stream_data_`, if there is one. -/
def notify (cb : Option (OnStreamData σ)) (s : Session σ) (stream : Stream) (payload : Bytes) :
    Session σ :=
  match cb with
  | none => s
  | some f =>
      let (app, calls, thrown) := f s.app stream payload
      { s with
        app
        calls := s.calls ++ calls
        notified := s.notified ++ [(stream, payload)]
        thrown }

/-- `HandleFrame`. -/
def handleFrame (cb : Option (OnStreamData σ)) (s : Session σ) (frame : Frame) : Session σ :=
  if 0 < frame.header.streamId then
    let (s, stream) := s.getStream frame.header.streamId
    if frame.header.type = FrameType.data then
      let stream := stream.appendData frame.payload
      let s := { s with streams := Function.update s.streams frame.header.streamId (some stream) }
      -- the callback gets this payload, and not what the stream has gathered
      s.notify cb stream frame.payload
    else s
  else s

/-- One turn of the loop of `OnData`. -/
def turn (cb : Option (OnStreamData σ)) : Session σ × Buffer → Turn (Session σ × Buffer)
  | (s, buf) =>
      match s.parser.parse buf with
      | (none, parser, buf) => .leave ({ s with parser }, buf)
      | (some frame, parser, buf) =>
          let s := handleFrame cb { s with parser } frame
          if s.thrown.isSome then .leave (s, buf) else .again (s, buf)

/-- What the loop of `OnData` uses up: the unread bytes, and a header taken. -/
def rank (p : Session σ × Buffer) : ℕ :=
  2 * p.2.length + if p.1.parser.state = .kReadingPayload then 1 else 0

/-- `OnData`. -/
def onData (cb : Option (OnStreamData σ)) : Session σ × Buffer → Session σ × Buffer
  | (s, buf) =>
      if s.prefaceReceived then run (turn cb) rank (s, buf)
      else if buf.length < kPrefaceLen then (s, buf)
      else if buf.take kPrefaceLen = kClientPreface then
        run (turn cb) rank ({ s with prefaceReceived := true }, Buffer.retrieve buf kPrefaceLen)
      else ({ s with calls := s.calls ++ [.forceClose] }, buf)

/-- `OnData` called after each read on the connection's input buffer. Nothing catches an exception
that leaves it, so no call follows. -/
def receiveAll (cb : Option (OnStreamData σ)) (p : Session σ × Buffer) (reads : List Bytes) :
    Session σ × Buffer :=
  reads.foldl
    (fun p read => if p.1.thrown.isSome then p else onData cb (p.1, Buffer.append p.2 read)) p

/-- `SendStreamData`. -/
def sendStreamData (streamId : ℕ) (data : Bytes) (endStream : Bool) : List ConnCall :=
  .send (frameHeader data.length FrameType.data (if endStream then 0x01 else 0x00) streamId) ::
    if data.isEmpty then [] else [.send data]

/-- `SendHeaders`; the length is a 32-bit integer. -/
def sendHeaders (streamId : ℕ) (headers : List (Bytes × Bytes)) (endStream : Bool) :
    List ConnCall :=
  let hpackBlock := HpackEncoder.encode headers
  let length := hpackBlock.length % 2 ^ 32
  .send (frameHeader length FrameType.headers (if endStream then 0x05 else 0x04) streamId) ::
    if 0 < length then [.send hpackBlock] else []

end Session

end NetworkLib.Http2
