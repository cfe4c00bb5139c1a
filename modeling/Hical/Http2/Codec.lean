import Mathlib.Logic.Function.Basic

namespace Hical.Http2

inductive ErrorCode where
  | hNoError
  | hEof | hConnectionReset | hConnectionRefused | hTimedOut | hConnectionInProgress
  | hConnectionAborted
  | hAddressInUse | hAddressNotAvailable | hNetworkUnreachable | hHostUnreachable
  | hOperationAborted | hOperationInProgress | hBrokenPipe | hPermissionDenied
  | hTooManyOpenFiles | hWouldBlock
  | hSslHandshakeError | hSslInvalidCertificate | hSslProtocolError
  | hProtocolUnavailable | hProtocolNegotiationFailed | hHttp2ConnectionError | hHttp2StreamError
  | hResourceLimitExceeded | hInvalidConfiguration
  | hUnknown
  deriving DecidableEq, Repr

inductive Http2Code where
  | hNoError | hProtocolError | hInternalError | hFlowControlError | hSettingsTimeout
  | hStreamClosed | hFrameSizeError | hRefusedStream | hCancel | hCompressionError
  | hConnectError | hEnhanceYourCalm | hInadequateSecurity | hHttp11Required
  /-- A value without a name of its own, which a peer may still send. -/
  | hOther (value : UInt32)
  deriving DecidableEq, Repr

structure Http2ErrorInfo where
  code : Http2Code := .hNoError
  streamId : Int := 0
  deriving DecidableEq, Repr

structure NetworkError where
  code : ErrorCode := .hNoError
  message : String := ""
  http2 : Option Http2ErrorInfo := none
  deriving DecidableEq, Repr

/-- `NetworkError::operator bool`. -/
def NetworkError.isError (e : NetworkError) : Bool := decide (e.code ≠ .hNoError)

inductive HeaderKind where
  | hRequest | hResponse | hTrailers
  deriving DecidableEq, Repr

end Hical.Http2

namespace Hical.Http2

/-- The error codes of nghttp2. -/
def wireError (libraryError : Int) : Http2Code :=
  if libraryError = -510 then .hStreamClosed
  else if libraryError = -523 then .hCompressionError
  else if libraryError = -522 then .hFrameSizeError
  else if libraryError = -524 then .hFlowControlError
  else if libraryError = -533 then .hRefusedStream
  else if libraryError = -904 ∨ libraryError = -905 then .hEnhanceYourCalm
  else if libraryError = -901 ∨ libraryError = -902 then .hInternalError
  else .hProtocolError

def protocolError (streamId : Int) (code : Http2Code) : NetworkError :=
  ⟨if streamId = 0 then .hHttp2ConnectionError else .hHttp2StreamError, "", some ⟨code, streamId⟩⟩

def operationError (result streamId : Int) : NetworkError :=
  if 0 ≤ result then {}
  else if result = -501 ∨ result = -519 ∨ result = -505 then
    ⟨.hInvalidConfiguration, "HTTP/2 操作参数或当前状态无效", none⟩
  else
    let error := protocolError streamId (wireError result)
    { error with
      code := if result = -901 then .hResourceLimitExceeded else error.code
      message := "HTTP/2 协议操作失败，库错误码 " ++ toString result }

theorem operationError_isError (h : result < 0) (id : Int) :
    (operationError result id).isError = true := by
  rw [operationError, if_neg (by omega)]
  split
  · rfl
  · simp only [protocolError]
    split
    · rfl
    · split <;> rfl

/-- `Http2Codec`, without what it sends. The results of nghttp2 come with the calls. -/
structure Codec where
  terminalError : NetworkError := {}
  /-- The streams whose user data is `rejectedMarker_`. -/
  marked : Int → Bool := fun _ => false
  /-- Not in the code: what was given back to the window of the connection. -/
  returned : List Nat := []

namespace Codec

/-- `Impl::reject`, where nghttp2 says whether the RST_STREAM was submitted. -/
def reject (c : Codec) (streamId : Int) (result : Int) : Codec × Int :=
  if result = 0 then ({ c with marked := Function.update c.marked streamId true }, result)
  else (c, result)

def reset (c : Codec) (streamId : Int) (result : Int) : Codec × NetworkError :=
  if c.terminalError.isError then (c, c.terminalError)
  else ((c.reject streamId result).1, operationError (c.reject streamId result).2 streamId)

/-- `nghttp2_session_consume_connection`, or `nghttp2_session_consume`, which counts for the
connection too. -/
def giveBack (c : Codec) (bytes : Nat) (result : Int) : Codec × Int :=
  if 0 ≤ result then ({ c with returned := c.returned ++ [bytes] }, result) else (c, result)

def consume (c : Codec) (streamId : Int) (bytes : Nat) (result : Int) : Codec × NetworkError :=
  if c.terminalError.isError then (c, c.terminalError)
  else ((c.giveBack bytes result).1, operationError (c.giveBack bytes result).2 streamId)

end Codec

end Hical.Http2
