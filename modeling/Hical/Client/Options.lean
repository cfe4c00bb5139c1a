import Hical.Http
import Hical.Http2.Codec
import Hical.Http2.Options

namespace Hical.Client
open Hical.Http2

inductive HttpProtocol where
  | hHttp1 | hHttp2
  deriving DecidableEq, Repr

inductive HttpProtocolMode where
  | hHttp1Only | hNegotiateHttp2 | hHttp2Only
  deriving DecidableEq, Repr

inductive HttpRequestDisposition where
  | hNotSent | hNotProcessed | hPossiblyProcessed
  deriving DecidableEq, Repr

structure HttpClientResult where
  error : NetworkError := {}
  status : Int := 0
  statusText : Bytes := []
  body : Bytes := []
  headers : Fields := []
  protocol : HttpProtocol := .hHttp1
  trailers : Fields := []
  requestDisposition : HttpRequestDisposition := .hPossiblyProcessed
  deriving DecidableEq

/-- `Clock::time_point::max()`. Clock readings are milliseconds, as the durations are. -/
def timePointMax : Nat := 9223372036854

/-- `requestDeadline`, at the clock reading `now`. -/
def requestDeadline (timeout : Int) (now : Nat) : Nat :=
  if 0 < timeout then now + min timeout.toNat (timePointMax - now) else timePointMax

/-- `HttpClientOptions`; a TLS context counts by its identity. -/
structure HttpClientOptions where
  tlsContext : Option Nat := none
  sniHost : Bytes := []
  verifyPeer : Bool := true
  connectTimeout : Int := 10000
  requestTimeout : Int := 30000
  protocolMode : HttpProtocolMode := .hHttp1Only
  http2 : Http2Options := {}

def isHttpMethodIdempotent (method : HttpMethod) : Bool :=
  method = .hGet || method = .hHead || method = .hPut || method = .hDelete || method = .hOptions

def poolCancelled : NetworkError :=
  { code := .hOperationAborted, message := "HTTP 连接池请求已取消" }

/-- A `boost::system::system_error`: whether it is `operation_aborted`, and what `toNetworkError`
makes of it. -/
structure SystemError where
  aborted : Bool
  networkError : NetworkError

/-- What the handlers of `system_error` in the pool report. -/
def SystemError.reported (e : SystemError) : NetworkError :=
  if e.aborted then poolCancelled else e.networkError

end Hical.Client
