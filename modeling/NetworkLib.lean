import NetworkLib.Theory.LengthPrefix
import NetworkLib.Theory.ServiceRuns
import NetworkLib.Protocols.TcpFraming
import NetworkLib.Protocols.TcpService
import NetworkLib.Client.TcpAlignment
import NetworkLib.Protocols.Http2.Writers
import NetworkLib.Protocols.Http2.HpackDecoder
import NetworkLib.Protocols.RpcFrameSync
import NetworkLib.Protocols.HttpParser
import NetworkLib.Protocols.WebSocket.Framing
import NetworkLib.Protocols.WebSocket.Handler
import NetworkLib.Protocols.HeaderExceptions
import NetworkLib.Protocols.HttpKeepAlive
import NetworkLib.Protocols.WebSocket.Isolation
import NetworkLib.Core.EndOfFile
import NetworkLib.Core.OutputStream
import NetworkLib.Core.Registry
import NetworkLib.Core.ConnectionLimit
import NetworkLib.Core.ListenerTls
import NetworkLib.Core.EventDelivery
import NetworkLib.Core.WakeUps
import NetworkLib.Core.ConnectOutcome
import NetworkLib.Core.GracefulShutdown
import NetworkLib.Protocols.Grpc.Envelopes
import NetworkLib.Protocols.Http2.WholeFrames
import NetworkLib.Protocols.HttpAnswer
import NetworkLib.Protocols.FailingHandler
import NetworkLib.Protocols.CloseInBatch
import NetworkLib.Logging.StrandedProducers
import NetworkLib.Client.HttpProtocol
import NetworkLib.Client.HttpRoundTrip
import NetworkLib.Client.UdpRoundTrip
import NetworkLib.Client.HttpInjection
import NetworkLib.Client.WebSocketDelivery
import NetworkLib.Oms.OrderManager
import NetworkLib.Resilience.CircuitBreaker
import NetworkLib.Resilience.TokenBucket
import NetworkLib.Logging.FileSink
import NetworkLib.Core.HotReload
import NetworkLib.Client.RpcCorrelation
import NetworkLib.Protocols.Grpc.ServiceRegistry
import NetworkLib.Protocols.Grpc.CodecStream
import NetworkLib.Protocols.HttpBody
import NetworkLib.Protocols.WebSocket.Encoders
import NetworkLib.Protocols.WebSocket.UpgradeBoundary
import NetworkLib.Protocols.WebSocket.Fragments
import NetworkLib.Protocols.WebSocket.InvalidLength
import NetworkLib.Core.IoUringPoller
import NetworkLib.Resilience.Polling
import NetworkLib.Resilience.BreakerHistory
import NetworkLib.Security.TlsUpdates
import NetworkLib.Logging.QueueBounds
import NetworkLib.Logging.FailedRotations
import NetworkLib.Oms.Cancellation
import NetworkLib.Oms.MarketData
import NetworkLib.Oms.Acceptances
import NetworkLib.Observability.Tracer
import NetworkLib.SuperClient.Replies
import NetworkLib.SuperClient.SuperServer
import NetworkLib.Logging.LogUnits
import NetworkLib.Logging.JsonLog
import NetworkLib.Observability.OtlpExporter
