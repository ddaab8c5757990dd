import NetworkLib.Protocols.Handler

/-! # The UDP handler

`EchoUdpHandler::OnPacket` and its stream context. A datagram is taken for a serialised envelope;
one that does not parse is wrapped into an envelope as it is. Every write through the context is a
datagram to the address the packet came from. -/

namespace NetworkLib

/-- The most a UDP datagram over IPv4 can carry. -/
def maxDatagram : ℕ := 65507

/-- `UdpStreamContext`: the datagram a context call sends, if it sends one. -/
def UdpStreamContext.datagram (pb : Protobuf) : ContextCall → List Bytes
  | .write msg => [pb.serializeAsString msg]
  | .writeString data => [data]
  -- UDP is connectionless
  | .close => []

/-- The callbacks of a `UdpHandler`. -/
structure EchoUdpHandler (σ : Type*) where
  streamHandler : Option (StreamHandler σ) := none
  rawHandler : Option (RawHandler σ) := none

/-- What `OnPacket` reads and changes: the application state, the datagrams sent back and the
requests passed to the stream handler so far, and the exception that left the last call. -/
structure UdpSession (σ : Type*) where
  app : σ
  sent : List Bytes := []
  dispatched : List StreamEnvelope := []
  thrown : Option Thrown := none

namespace EchoUdpHandler

variable {σ : Type*} (pb : Protobuf) (h : EchoUdpHandler σ)

/-- The envelope around a packet that is not a serialised envelope. -/
def fallback (data : Bytes) : StreamEnvelope :=
  (({} : StreamEnvelope).setData data).mutableHeader fun header =>
    { header with messageType := bytesOf "udp.packet" }

/-- The request a packet is read as. -/
def request (data : Bytes) : StreamEnvelope :=
  (pb.parseFromArray data data.length).getD (fallback data)

/-- `OnPacket`. What the stream handler throws is swallowed, what the raw handler throws is not. -/
def onPacket (s : UdpSession σ) (data : Bytes) : UdpSession σ :=
  match h.rawHandler, h.streamHandler with
  | some f, _ =>
      let run := f s.app data
      { s with
        app := run.app
        sent := s.sent ++ run.calls.flatMap (UdpStreamContext.datagram pb)
        thrown := run.thrown }
  | none, some f =>
      let run := f s.app (request pb data) {}
      -- an exception is caught, and then there is no response
      let response :=
        if run.thrown.isNone ∧ run.resp.payload.isSome then [ContextCall.write run.resp] else []
      { s with
        app := run.app
        sent := s.sent ++ (run.calls ++ response).flatMap (UdpStreamContext.datagram pb)
        dispatched := s.dispatched ++ [request pb data]
        thrown := none }
  -- the echo
  | none, none => { s with sent := s.sent ++ [data], thrown := none }

end EchoUdpHandler

end NetworkLib
