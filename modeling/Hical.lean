import Hical.WebSocket.Rfc
import Hical.Session.Pipelined
import Hical.Session.Aligned
import Hical.Http2.Accounts
import Hical.Http2.FlowControl
import Hical.Db.Delivery
import Hical.Db.Middleware
import Hical.Db.Waiters
import Hical.Client.Exclusive
import Hical.Client.Exchange
import Hical.Client.PerOrigin
import Hical.Http2.ClientRun
import Hical.Timer.Throwing
import Hical.Tcp.Wakeup
import Hical.Idle.Closing
import Hical.Server.Snapshots
import Hical.Server.Stopped
import Hical.Tcp.Late
import Hical.Tcp.Stopping
import Hical.Http2.Mapping
import Hical.Http2.Agreement
import Hical.WebSocket.Hub
import Hical.Middleware.CompileTime
import Hical.SessionStore.Continuity
import Hical.Http2.Reported
import Hical.Session.Upgrades
import Hical.Http2.Awake
import Hical.WebSocket.Encode
import Hical.Router.Captures
import Hical.Router.Wildcard
import Hical.Router.Matchers
import Hical.Http2.Blocks
import Hical.Http2.Inbound
import Hical.Http2.Rotation
import Hical.Http2.HeaderViews
import Hical.WebSocket.MessageStreams
import Hical.Http2.FileTask
import Hical.Request.Caches
import Hical.Request.Cookies
import Hical.StaticFiles.Confinement
import Hical.RateLimiter.Guarantees
import Hical.Jwt.RoundTrip
import Hical.Json.Writer
import Hical.Json.FromJson
import Hical.Multipart.Complete
import Hical.Multipart.Exact
import Hical.Db.PgsqlConnection
import Hical.Gzip.Compression
import Hical.Log.AsyncFileSink
import Hical.Log.LogFile
import Hical.MemoryPool
import Hical.PmrBuffer
import Hical.Sse.Session
import Hical.Client.Serialization
