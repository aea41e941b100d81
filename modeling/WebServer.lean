import WebServer.Http.RequestRoundTrip
import WebServer.Connection.BackPressure
import WebServer.Connection.Fragmentation
import WebServer.Connection.HalfClose
import WebServer.Connection.ResponseStream
import WebServer.Connection.StaticConfinement
import WebServer.Loop.IdleTimer
import WebServer.Service.RateLimiting
import WebServer.Loop.TimerHistory
import WebServer.Loop.Expiry
import WebServer.Loop.NextTimeout
import WebServer.Loop.ShutdownEnds
import WebServer.Service.LogOrder
import WebServer.Http.RequestLimits
import WebServer.Http.FramingHeaders
import WebServer.Http.HeaderCase
import WebServer.Service.KVRequests
import WebServer.Service.Routing
import WebServer.Service.StaticDecoding
import WebServer.Connection.KVService
import WebServer.Connection.WriteInterest
import WebServer.Connection.FileDescriptors
import WebServer.Http.ContentLength
import WebServer.Loop.Backlog
import WebServer.Connection.ConnectionHeader
import WebServer.Connection.LastResponse
import WebServer.Http.HeaderTurns
import WebServer.Connection.StatusLine
import WebServer.Connection.LogLines
import WebServer.Connection.InputStream
import WebServer.Connection.Frames
import WebServer.Connection.Exchanges
import WebServer.Loop.Projection
import WebServer.Loop.Socket
import WebServer.Loop.EdgeTriggered
import WebServer.Loop.AtRest
import WebServer.Loop.Ledger
import WebServer.Loop.Lifetime
import WebServer.Service.LogLatency
import WebServer.Http.Grammar
import WebServer.Connection.Linearization
import WebServer.Connection.EchoLimit
import WebServer.Loop.Rounds
import WebServer.Loop.ThreadedServer
