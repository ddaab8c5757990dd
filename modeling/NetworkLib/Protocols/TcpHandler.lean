import NetworkLib.Memory.Buffer
import NetworkLib.Protocols.Handler
import NetworkLib.Theory.Loop

/-! # The TCP protocol handler

`TcpHandler::OnMessage` and its stream context. In framed mode each message is a `StreamEnvelope`
behind a 32-bit big-endian length; in raw mode everything readable goes to the raw handler. -/

namespace NetworkLib

open Loop

/-- `TcpStreamContext`: what a context call does to the connection. A message with an empty
serialisation is not sent. -/
def TcpStreamContext.onConn (pb : Protobuf) : ContextCall → List ConnCall
  | .write msg =>
      let payload := pb.serializeAsString msg
      if payload.isEmpty then []
      else [.send (htonl (UInt32.ofNat payload.length) ++ payload)]
  | .writeString data => [.send data]
  | .close => [.forceClose]

namespace TcpHandler

variable {σ : Type*} (pb : Protobuf) (h : ProtocolHandler σ)

/-- The sanity bound on an announced length, 100 MiB. -/
def maxLength : ℕ := 100 * 1024 * 1024

/-- The response skeleton prepared before the stream handler runs. -/
def skeleton (req : StreamEnvelope) : StreamEnvelope :=
  match req.header with
  | none => {}
  | some header =>
      (({} : StreamEnvelope).mutableHeader fun r => { r with correlationId := header.messageId })
        |>.mutableHeader fun r => { r with messageId := header.messageId ++ bytesOf "_resp" }

/-- Send the response, only if it has content. -/
def respond (resp : StreamEnvelope) : List ConnCall :=
  if resp.header.isSome || resp.payload.isSome || decide (0 < (pb.serializeAsString resp).length)
  then
    let payload := pb.serializeAsString resp
    if payload.isEmpty then []
    else [.send (htonl (UInt32.ofNat payload.length) ++ payload)]
  else []

/-- Process one complete frame the rate limiter let through. -/
def process (s : Session σ) (data : Bytes) : Session σ :=
  match pb.parseFromString data with
  | none => { s with thrown := none }
  | some req =>
      match h.streamHandler with
      | some f =>
          let (s, run) :=
            s.invoke f (fun calls => calls.flatMap (TcpStreamContext.onConn pb)) req (skeleton req)
          match run.thrown with
          | some e => { s with thrown := some e }
          | none => { s.push (respond pb run.resp) with thrown := none }
      | none =>
          -- echo the payload if there is no handler
          let resp := { skeleton req with payload := req.payload }
          { s.push (respond pb resp) with thrown := none }

/-- One turn of the framed-mode loop. -/
def turn : Session σ × Buffer → Turn (Session σ × Buffer)
  | (s, buf) =>
      if buf.length < 4 then .leave (s, buf)
      else
        let length := ntohl (buf.take 4)
        if maxLength < length.toNat then
          -- force close to prevent desync
          .leave (s.push [.forceClose], buf)
        else if (4 + length).toNat ≤ buf.length then
          if h.checkRateLimit s.consumed then
            let buf := Buffer.retrieve buf 4
            let data := buf.take length.toNat
            let buf := Buffer.retrieve buf length.toNat
            let s := process pb h s.consume data
            if s.thrown.isSome then .leave (s, buf) else .again (s, buf)
          else
            .again (s.consume, Buffer.retrieve buf (4 + length).toNat)
        else .leave (s, buf)

/-- Raw mode: pass everything available to the raw handler, or drop it when rate limited. -/
def onRaw (f : RawHandler σ) : Session σ × Buffer → Session σ × Buffer
  | (s, buf) =>
      if buf.length = 0 then (s, buf)
      else if h.checkRateLimit s.consumed then
        let run := f s.app buf
        ({ s.consume.push (run.calls.flatMap (TcpStreamContext.onConn pb)) with
            app := run.app
            thrown := run.thrown }, Buffer.retrieve buf buf.length)
      -- what the limiter refuses is thrown away
      else (s.consume, Buffer.retrieve buf buf.length)

/-- `TcpHandler::OnMessage`. -/
def onMessage (p : Session σ × Buffer) : Session σ × Buffer :=
  let p := ({ p.1 with thrown := none }, p.2)
  match h.rawHandler with
  | some f => onRaw pb h f p
  | none => run (turn pb h) (fun p => p.2.length) p

/-- `OnMessage` called after each read on the connection's input buffer. -/
def receiveAll (p : Session σ × Buffer) (reads : List Bytes) : Session σ × Buffer :=
  reads.foldl (fun p read => onMessage pb h (p.1, Buffer.append p.2 read)) p

end TcpHandler

end NetworkLib
