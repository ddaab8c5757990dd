import NetworkLib.Client.ClientSession
import NetworkLib.Protocols.Grpc.GrpcCodec
import NetworkLib.Protocols.Http2.FrameParser
import NetworkLib.Protocols.Http2.Hpack

/-! # The gRPC client protocol

`GrpcClientProtocol`: a minimal HTTP/2 client that sends each envelope as a HEADERS and a DATA frame
on stream 1 and reads envelopes off the DATA frames it receives. -/

namespace NetworkLib

open Loop Http2

namespace GrpcClientProtocol

variable {σ : Type*} (pb : Protobuf)

/-- `OnConnect`. -/
def onConnect : List ConnCall :=
  [.send (bytesOf "PRI * HTTP/2.0\r\n\r\nSM\r\n\r\n"),
    .send [0, 0, 0, FrameType.settings, 0, 0, 0, 0, 0]]

/-- The header fields of a request, in the order of their names. -/
def headers (envelope : StreamEnvelope) : List (Bytes × Bytes) :=
  let path :=
    if envelope.header.isSome ∧ ¬ envelope.getHeader.messageType.isEmpty then
      envelope.getHeader.messageType
    else bytesOf "/test.Service/Method"
  [(bytesOf ":method", bytesOf "POST"), (bytesOf ":path", path),
    (bytesOf ":scheme", bytesOf "http"), (bytesOf "content-type", bytesOf "application/grpc"),
    (bytesOf "te", bytesOf "trailers")]

/-- `Send`. -/
def send (envelope : StreamEnvelope) : List ConnCall :=
  let hpackBlock := HpackEncoder.encode (headers envelope)
  let grpcBytes := GrpcCodec.encode (pb.serializeAsString envelope) false
  [.send (frameHeader hpackBlock.length FrameType.headers 0x4 1), .send hpackBlock,
    .send (frameHeader grpcBytes.length FrameType.data 0x1 1), .send grpcBytes]

/-- The SETTINGS frame that acknowledges one. -/
def ack : Bytes := [0, 0, 0, FrameType.settings, 0x1, 0, 0, 0, 0]

/-- Handle a DATA frame. -/
def handleData (handler : Option (MessageHandler σ)) (s : ClientSession σ) (payloadBuf : Buffer) :
    ClientSession σ :=
  match (GrpcCodec.decode payloadBuf).1 with
  | none => s
  | some (payload, _) =>
      match pb.parseFromString payload with
      | none => s
      | some env => s.deliver handler env

/-- One turn of the loop of `OnDataReceived`, over the session, the calls on the connection and the
input buffer. A frame on which the handler throws is not consumed. -/
def turn (handler : Option (MessageHandler σ)) :
    (ClientSession σ × List ConnCall) × Buffer → Turn ((ClientSession σ × List ConnCall) × Buffer)
  | ((s, calls), buf) =>
      if buf.length < 9 then .leave ((s, calls), buf)
      else
        let header := FrameHeader.ofBytes (buf.take 9)
        if 9 + header.length ≤ buf.length then
          if header.type = FrameType.settings then
            -- settings are acknowledged, unless they are an acknowledgement
            let calls := if header.flags &&& 0x1 = 0 then calls ++ [.send ack] else calls
            .again ((s, calls), Buffer.retrieve buf (9 + header.length))
          else if header.type = FrameType.data then
            let s := handleData pb handler s ((buf.drop 9).take header.length)
            -- an exception leaves before the frame is retrieved
            if s.thrown.isSome then .leave ((s, calls), buf)
            -- every other frame is skipped
            else .again ((s, calls), Buffer.retrieve buf (9 + header.length))
          else .again ((s, calls), Buffer.retrieve buf (9 + header.length))
        else .leave ((s, calls), buf)

/-- `OnDataReceived`. -/
def onDataReceived (handler : Option (MessageHandler σ)) :
    (ClientSession σ × List ConnCall) × Buffer → (ClientSession σ × List ConnCall) × Buffer
  | ((s, calls), buf) =>
      run (turn pb handler) (fun p => p.2.length) (({ s with thrown := none }, calls), buf)

/-- `OnDataReceived` called after each read on the connection's input buffer. -/
def receiveAll (handler : Option (MessageHandler σ))
    (p : (ClientSession σ × List ConnCall) × Buffer) (reads : List Bytes) :
    (ClientSession σ × List ConnCall) × Buffer :=
  reads.foldl (fun p read => onDataReceived pb handler (p.1, Buffer.append p.2 read)) p

end GrpcClientProtocol

end NetworkLib
