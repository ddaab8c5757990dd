import NetworkLib.Client.GrpcProtocol
import NetworkLib.Client.HttpProtocol
import NetworkLib.Client.RpcProtocol
import NetworkLib.Client.TcpProtocol
import NetworkLib.Client.WebSocketProtocol

/-! # The client protocol of a mode

`ClientProtocolFactory::Create` and what `Send` of the object it returns does. -/

namespace NetworkLib

/-- The implementations of `IClientProtocol`. -/
inductive ClientProtocol where
  | http
  | websocket
  | grpc
  | quic
  | rpc
  | tcp
  deriving DecidableEq, Repr

/-- `ClientProtocolFactory::Create`. -/
def ClientProtocolFactory.create (mode : String) : ClientProtocol :=
  if mode = "http" then .http
  else if mode = "websocket" then .websocket
  else if mode = "grpc" then .grpc
  else if mode = "quic" then .quic
  else if mode = "rpc" then .rpc
  else .tcp

/-- `QuicClientProtocol::Send`: a mock STREAM packet on stream 0. -/
def QuicClientProtocol.send (pb : Protobuf) (envelope : StreamEnvelope) : List ConnCall :=
  [.send (0x01 :: (List.replicate 8 0 ++ pb.serializeAsString envelope))]

/-- `Send` of a protocol object, when the counter of request ids stands at `idCounter`. -/
def ClientProtocol.send (pb : Protobuf) (protocol : ClientProtocol) (envelope : StreamEnvelope)
    (idCounter : ℕ) : List ConnCall × ℕ :=
  match protocol with
  | .http => (HttpClientProtocol.send envelope, idCounter)
  | .websocket => (WebSocketClientProtocol.send envelope, idCounter)
  | .grpc => (GrpcClientProtocol.send pb envelope, idCounter)
  | .quic => (QuicClientProtocol.send pb envelope, idCounter)
  | .rpc => RpcClientProtocol.send pb envelope idCounter
  | .tcp => (TcpClientProtocol.send pb envelope, idCounter)

/-- **There is no client protocol for UDP**: in mode `udp` a client speaks the TCP protocol. -/
theorem ClientProtocolFactory.create_udp : create "udp" = .tcp := by decide

end NetworkLib
