import NetworkLib.Core.Reactor

/-! # The server

`Server::Init` builds the reactor from the configuration and registers a listener for every enabled
protocol. What OpenSSL and the sockets answer comes from outside, one `Outcome` for each entry of
the protocol list. Only the configuration that `Init` reads is modelled. -/

namespace NetworkLib

/-- `SslConfig`. -/
structure SslConfig where
  enabled : Bool := false
  certFile : String := ""
  keyFile : String := ""
  deriving DecidableEq, Repr

/-- `ProtocolConfig`. -/
structure ProtocolConfig where
  name : String := ""
  type : String
  mode : String := "proto"
  port : ℕ := 0
  enabled : Bool := true
  ssl : SslConfig := {}
  deriving DecidableEq, Repr

/-- `RateLimiterConfig`. -/
structure RateLimiterConfig where
  enabled : Bool := true
  requestsPerSecond : ℤ := 10000
  burstSize : ℤ := 1000
  perIpEnabled : Bool := true
  perIpRequestsPerSecond : ℤ := 100
  deriving DecidableEq, Repr

/-- `ServerConfig`; `port` is `network.port`. -/
structure ServerConfig where
  mode : String := "tcp"
  port : ℕ := 0
  ssl : SslConfig := {}
  protocolList : List ProtocolConfig := []
  rateLimiter : RateLimiterConfig := {}
  deriving DecidableEq, Repr

/-- The protocol handlers for streams of bytes. -/
inductive ProtocolKind where
  | tcp
  | http
  | grpc
  | websocket
  | rpc
  | quic
  deriving DecidableEq, Repr

/-- `ProtocolFactory::Create`. -/
def ProtocolFactory.create (mode : String) : Except String ProtocolKind :=
  match mode with
  | "tcp" => .ok .tcp
  | "http" => .ok .http
  | "grpc" => .ok .grpc
  | "websocket" => .ok .websocket
  | "rpc" => .ok .rpc
  | "quic" => .ok .quic
  | "udp" => .error "UDP is not a stream protocol. Use CreateUdpHandler."
  | mode => .error ("Unknown protocol mode: " ++ mode)

/-- The system calls that can fail while a listener is registered. -/
inductive SocketFailure where
  | create
  | setsockopt
  | getFlags
  | setFlags
  | bind
  | listen
  /-- `EventLoop::AddFd`, with what the poller throws. -/
  | addFd (what : String)
  deriving DecidableEq, Repr

/-- The error `RegisterServer` fails with. -/
def SocketFailure.error : SocketFailure → ResultError
  | create => ⟨Errors.kInternal, "Failed to create socket"⟩
  | setsockopt => ⟨Errors.kInternal, "setsockopt failed"⟩
  | getFlags => ⟨Errors.kInternal, "fcntl F_GETFL failed"⟩
  | setFlags => ⟨Errors.kInternal, "fcntl F_SETFL failed"⟩
  | bind => ⟨Errors.kConnectionFailed, "Bind failed"⟩
  | listen => ⟨Errors.kInternal, "Listen failed"⟩
  | addFd what => ⟨Errors.kInternal, what⟩

/-- The error `RegisterUdpServer` fails with; it ignores what `setsockopt` and `fcntl` answer. -/
def SocketFailure.udpError : SocketFailure → Option ResultError
  | create => some ⟨Errors.kInternal, "Failed to create UDP socket"⟩
  | bind => some ⟨Errors.kConnectionFailed, "UDP Bind failed"⟩
  | addFd what => some ⟨Errors.kInternal, what⟩
  | setsockopt => none
  | getFlags => none
  | setFlags => none
  | listen => none

/-- `RegisterServer`. The context is stored before anything else is done. -/
def Reactor.registerServer (r : Reactor) (port : ℕ) (tls : Option TlsContext)
    (failure : Option SocketFailure) : Reactor × Option ResultError :=
  match failure with
  | some f => ({ r with tlsContext := tls }, some f.error)
  | none => ({ r with tlsContext := tls, ports := r.ports ++ [port] }, none)

/-- A listener for streams of bytes: its handler and what is installed on it. -/
structure Listener where
  port : ℕ
  handler : ProtocolKind
  streamHandler : Bool
  rawHandler : Bool
  /-- The rate and the burst size of its token bucket. -/
  rateLimiter : Option (ℤ × ℤ)
  deriving DecidableEq, Repr

/-- `Server`: whether handlers were registered with it, and what `Init` has built. -/
structure Server where
  streamHandler : Bool := false
  rawHandler : Bool := false
  reactor : Reactor := {}
  listeners : List Listener := []
  udpPorts : List ℕ := []

/-- What the system answers while one protocol is set up. -/
structure Outcome where
  ssl : OpenSsl := {}
  failure : Option SocketFailure := none

namespace Server

/-- The context of an `SslConfig`, if TLS is enabled there. -/
def initTls (ssl : OpenSsl) (cfg : SslConfig) (message : String) :
    Except String (Option TlsContext) :=
  if cfg.enabled then
    match TlsContext.init ssl .kServer cfg.certFile cfg.keyFile with
    | (t, none) => .ok (some t)
    | (_, some e) => .error (message ++ e.message)
  else .ok none

/-- The token bucket a listener gets. -/
def tokenBucket (cfg : RateLimiterConfig) : Option (ℤ × ℤ) :=
  if cfg.enabled then some (cfg.requestsPerSecond, cfg.burstSize) else none

/-- Register a listener for datagrams. -/
def listenUdp (s : Server) (port : ℕ) (message : String) (o : Outcome) : Except String Server :=
  match o.failure.bind SocketFailure.udpError with
  | some e => .error (message ++ e.message)
  | none => .ok { s with udpPorts := s.udpPorts ++ [port] }

/-- Register a listener for streams of bytes. -/
def listen (s : Server) (l : Listener) (tls : Option TlsContext) (message : String) (o : Outcome) :
    Except String Server :=
  match s.reactor.registerServer l.port tls o.failure with
  | (_, some e) => .error (message ++ e.message)
  | (reactor, none) => .ok { s with reactor, listeners := s.listeners ++ [l] }

/-- One turn of the loop of `Init` over the protocol list. -/
def register (cfg : ServerConfig) (s : Server) (proto : ProtocolConfig) (o : Outcome) :
    Except String Server :=
  if !proto.enabled then .ok s
  else
    match initTls o.ssl proto.ssl ("Failed to init TLS for " ++ proto.name ++ ": ") with
    | .error e => .error e
    | .ok tls =>
        -- a TLS context is set up for UDP too, and not used
        if proto.type = "udp" then s.listenUdp proto.port "UDP Register Failed: " o
        else
          match ProtocolFactory.create proto.type with
          | .error e => .error e
          | .ok handler =>
              s.listen
                { port := proto.port
                  handler
                  streamHandler := s.streamHandler && proto.mode != "raw"
                  rawHandler := s.rawHandler && proto.mode == "raw"
                  rateLimiter := tokenBucket cfg.rateLimiter }
                tls "Server Register Failed: " o

/-- The loop of `Init`; the outcomes are those of the entries in turn. -/
def registerAll (cfg : ServerConfig) : Server → List (ProtocolConfig × Outcome) →
    Except String Server
  | s, [] => .ok s
  | s, (proto, o) :: rest =>
      match s.register cfg proto o with
      | .error e => .error e
      | .ok s => registerAll cfg s rest

/-- The path of `Init` for a configuration without a protocol list. -/
def registerLegacy (cfg : ServerConfig) (s : Server) (tls : Option TlsContext) (o : Outcome) :
    Except String Server :=
  if cfg.mode = "udp" then s.listenUdp cfg.port "" o
  else
    match ProtocolFactory.create cfg.mode with
    | .error e => .error e
    | .ok handler =>
        s.listen
          { port := cfg.port
            handler
            streamHandler := s.streamHandler
            rawHandler := false
            rateLimiter := tokenBucket cfg.rateLimiter } tls "" o

/-- `SetDdosConfig` as `Init` calls it. -/
def ddosConfig (cfg : RateLimiterConfig) : DdosConfig :=
  if cfg.perIpEnabled then { maxConnPerIp := 1000, rateLimitPerIp := cfg.perIpRequestsPerSecond }
  else { maxConnPerIp := 1000 }

/-- `Init`, from the failure of the event loop, if it fails, the answers for the server's own
context, and an outcome for each protocol. -/
def init (s : Server) (cfg : ServerConfig) (loopFailure : Option ResultError) (ssl : OpenSsl)
    (o : ℕ → Outcome) : Except String Server :=
  match loopFailure with
  | some e => .error ("Failed to init event loop: " ++ e.message)
  | none =>
      let s := { s with
        reactor := ({} : Reactor).setDdosConfig (ddosConfig cfg.rateLimiter)
        listeners := []
        udpPorts := [] }
      match initTls ssl cfg.ssl "Failed to init TLS: " with
      | .error e => .error e
      | .ok tls =>
          -- without a protocol list the one mode of the configuration is served
          if cfg.protocolList = [] then s.registerLegacy cfg tls (o 0)
          else s.registerAll cfg (cfg.protocolList.zip ((List.range cfg.protocolList.length).map o))

end Server

end NetworkLib
