import NetworkLib.Protocols.Handler
import NetworkLib.Protocols.WebSocket.FrameParser
import NetworkLib.Protocols.WebSocket.Handshake

/-! # The WebSocket protocol handler

`WebSocketHandler::OnMessage` and its stream context. The upgrade flag and the frame parser are
members of the handler, not of a connection. -/

namespace NetworkLib

/-- The members of `WebSocketHandler` beside those of every protocol handler. -/
structure WebSocketHandler where
  isUpgraded : Bool := false
  parser : FrameParser := {}

namespace WebSocketStreamContext

/-- The text frame sent for the data. The 64-bit length goes out least significant byte first. -/
def textFrame (payload : Bytes) : Bytes :=
  let len := payload.length
  let length : Bytes :=
    if len < 126 then [UInt8.ofNat len]
    else if len < 65536 then [126, UInt8.ofNat (len >>> 8), UInt8.ofNat len]
    else 127 :: (List.range 8).map fun k => UInt8.ofNat (len >>> (8 * k))
  0x81 :: length ++ payload

/-- What a context call does to the connection. -/
def onConn : ContextCall → List ConnCall
  | .write msg =>
      let payload := match msg.payload with
        | some payload => payload.data
        | none => []
      [.send (textFrame payload)]
  | .writeString data => [.send (textFrame data)]
  | .close => [.forceClose]

end WebSocketStreamContext

namespace WebSocketHandler

variable {σ : Type*} (digest : Bytes → Bytes) (h : ProtocolHandler σ)

/-- `OnConnection`. -/
def onConnection (w : WebSocketHandler) : WebSocketHandler := { w with isUpgraded := false }

/-- The request envelope of a data frame. -/
def envelope (frame : Frame) : StreamEnvelope where
  header := some { messageType := bytesOf "websocket" }
  payload := some { data := frame.payload }

/-- Handle one parsed frame, and say whether `OnMessage` returns. -/
def onFrame (s : Session σ) (_consumed : ℕ) (frame : Frame) : Session σ × Bool :=
  if frame.opcode = OpCode.kText ∨ frame.opcode = OpCode.kBinary then
    if h.checkRateLimit s.consumed then
      match h.streamHandler with
      | some f =>
          let (s, run) :=
            s.consume.invoke f (fun calls => calls.flatMap WebSocketStreamContext.onConn)
              (envelope frame) {}
          -- whatever the handler throws is caught
          if run.thrown.isNone && run.resp.payload.isSome then
            (s.push (WebSocketStreamContext.onConn (.write run.resp)), false)
          else (s, false)
      | none => (s.consume, false)
    else (s.consume.push [.forceClose], true)
  else if frame.opcode = OpCode.kClose then (s.push [.forceClose], true)
  else (s, false)

/-- The handshake branch of `OnMessage`; `beyond` is the memory behind the readable bytes. -/
def onHandshake (p : Session σ × WebSocketHandler × Buffer) (beyond : Bytes) :
    Session σ × WebSocketHandler × Buffer :=
  let (s, w, buf) := p
  match Handshake.headerStr (buf ++ beyond) with
  | none => (s, w, buf)
  | some header =>
      -- the block is retrieved before it is parsed
      let buf := Buffer.retrieve buf (header.length + 4)
      match Handshake.readHeaders header with
      | none => ({ s with thrown := some .stdException }, w, buf)
      | some headers =>
          match Handshake.process digest headers with
          | some key =>
              (s.push [.send (Handshake.generateResponse key)], { w with isUpgraded := true }, buf)
          | none =>
              -- the connection is refused, and `is_upgraded_` stays false
              (s.push [.send (bytesOf "HTTP/1.1 400 Bad Request\r\n\r\n"), .forceClose], w, buf)

/-- The frame branch of `OnMessage`. -/
def onFrames (p : Session σ × WebSocketHandler × Buffer) : Session σ × WebSocketHandler × Buffer :=
  let (s, w, buf) := p
  let (s, parser, buf) := FrameParser.drive (onFrame h) (s, w.parser, buf)
  (s, { w with parser }, buf)

/-- `WebSocketHandler::OnMessage`. -/
def onMessage (p : Session σ × WebSocketHandler × Buffer) (beyond : Bytes) :
    Session σ × WebSocketHandler × Buffer :=
  let (s, w, buf) := p
  if w.isUpgraded then onFrames h (s.enter, w, buf) else onHandshake digest (s.enter, w, buf) beyond

/-- `OnMessage` called after each read on a connection before its upgrade, given the read and the
memory behind the readable bytes: whether each call throws. The calls end with the upgrade, the
refusal or an exception. -/
def handshakeReads (p : Session σ × Buffer) : List (Bytes × Bytes) → List (Option Thrown)
  | [] => []
  | (read, beyond) :: reads =>
      let (s, w, buf) := onMessage digest h (p.1, {}, Buffer.append p.2 read) beyond
      if s.thrown.isSome ∨ w.isUpgraded ∨ ConnCall.forceClose ∈ s.calls then [s.thrown]
      else s.thrown :: handshakeReads (s, buf) reads

end WebSocketHandler

end NetworkLib
