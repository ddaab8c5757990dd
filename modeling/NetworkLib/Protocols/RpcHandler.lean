import NetworkLib.Memory.Buffer
import NetworkLib.Protocols.Handler
import NetworkLib.Theory.Loop

/-! # The RPC protocol handler

`RpcHandler::OnMessage` and its stream context. A message is a `StreamEnvelope` behind a 32-bit
big-endian length, and the frame size `4 + length` is computed in 32 bits. -/

namespace NetworkLib

open Loop

/-- `RpcStreamContext`: what a context call does to the connection. Raw data is framed too. -/
def RpcStreamContext.onConn (pb : Protobuf) : ContextCall → List ConnCall
  | .write msg =>
      let payload := pb.serializeAsString msg
      [.send (htonl (UInt32.ofNat payload.length) ++ payload)]
  | .writeString data => [.send (htonl (UInt32.ofNat data.length) ++ data)]
  | .close => [.forceClose]

namespace RpcHandler

variable {σ : Type*} (pb : Protobuf) (h : ProtocolHandler σ)

/-- The answer of the legacy echo. -/
def echo (envelope : StreamEnvelope) : StreamEnvelope :=
  (({} : StreamEnvelope).mutableHeader fun r =>
      { r with messageType := envelope.getHeader.messageType ++ bytesOf ".response" })
    |>.mutableHeader (fun r => { r with correlationId := envelope.getHeader.messageId })
    |>.setData envelope.getPayload.data

/-- Write the response if the handler populated it. -/
def respond (resp : StreamEnvelope) : List ConnCall :=
  if resp.header.isSome || resp.payload.isSome then RpcStreamContext.onConn pb (.write resp) else []

/-- Parse and serve the payload of a frame: `data` is the memory at `header + 4`, and `length` is
passed to `ParseFromArray` as a C `int`. -/
def process (s : Session σ) (data : Bytes) (length : UInt32) : Session σ :=
  match pb.parseFromArray data length.toInt32.toInt with
  -- what does not parse is dropped without an answer
  | none => s
  | some req =>
      match h.streamHandler with
      | some f =>
          let (s, run) :=
            s.invoke f (fun calls => calls.flatMap (RpcStreamContext.onConn pb)) req {}
          match run.thrown with
          -- the call is in no `try` block
          | some e => { s with thrown := some e }
          | none => s.push (respond pb run.resp)
      | none =>
          -- the echo of a handler that is not set
          let serialized := pb.serializeAsString (echo req)
          s.push [.send (htonl (UInt32.ofNat serialized.length)), .send serialized]

/-- One turn of the loop of `OnMessage`. -/
def turn : Session σ × Buffer → Turn (Session σ × Buffer)
  | (s, buf) =>
      if buf.length < 4 then .leave (s, buf)
      else
        let length := ntohl (buf.take 4)
        -- the sum wraps in 32 bits
        if buf.length < (4 + length).toNat then .leave (s, buf)
        else
          let s := process pb h s (buf.drop 4) length
          -- an exception leaves before the frame is retrieved
          if s.thrown.isSome then .leave (s, buf)
          else .again (s, Buffer.retrieve buf (4 + length).toNat)

/-- `RpcHandler::OnMessage` called on `p` returns, or throws, in `q`. -/
def OnMessage (p q : Session σ × Buffer) : Prop := Exits (turn pb h) (p.1.enter, p.2) q

end RpcHandler

end NetworkLib
