import Hical.Bytes
import Hical.Http2.Budget
import Hical.Http2.Codec

namespace Hical.Http2

/-- `Http2Stream`. Of the header blocks only whether they are sealed, of the mapped messages only the
bodies. -/
structure Http2Stream where
  id : Int
  incomingKind : HeaderKind
  initialSealed : Bool := false
  trailersSealed : Bool := false
  protocol : Lease
  application : Lease
  receive : Lease
  send : Lease
  requestBody : Bytes := []
  responseBody : Bytes := []
  pendingBody : Bytes := []
  error : NetworkError := {}
  bodyCompletedAt : Nat := 0
  bodyComplete : Bool := false
  bodyFailed : Bool := false
  bodyPublished : Bool := false
  applicationStarted : Bool := false
  applicationFinished : Bool := false
  /-- Not in the code: the slots that were given back. -/
  released : List Resource := []
  deriving DecidableEq, Repr

structure StreamConfig where
  streamId : Int
  incomingKind : HeaderKind := .hRequest
  peerLimit : UInt32 := 0xffffffff
  options : Http2Options := {}

/-- A stream beside the shared state of its leases, and the time on `steady_clock`. -/
structure OnStream where
  shared : Budgets
  stream : Http2Stream
  now : Nat := 0

namespace Http2Stream

/-- The reservations of `create`: those that were made are given back if one is refused. -/
def reserve (b : Budgets) (h : Http2Budget) (config : StreamConfig) : Budgets × Option Http2Stream :=
  let protocol := h.tryAcquireProtocolStream b config.peerLimit
  if !protocol.2.held then (protocol.1, none)
  else
    let application := h.tryAcquireApplicationTask protocol.1
    if !application.2.held then ((application.1.reset protocol.2).1, none)
    else
      let receive := h.tryAcquireReceive application.1 0
      let send := h.tryAcquireSend receive.1 0
      (send.1, some {
        id := config.streamId, incomingKind := config.incomingKind
        protocol := protocol.2, application := application.2
        receive := receive.2, send := send.2 })

def create (b : Budgets) (h : Http2Budget) (config : StreamConfig) :
    Except String (Budgets × Option Http2Stream) :=
  match config.options.validationError with
  | some error => .error error
  | none =>
    if config.streamId ≤ 0 ∨ config.incomingKind = .hTrailers then
      .error "HTTP/2 流 ID 或接收角色无效"
    else .ok (reserve b h config)

def body (s : Http2Stream) : Bytes :=
  if !s.bodyComplete || s.bodyFailed then []
  else if !s.bodyPublished then s.pendingBody
  else if s.incomingKind = .hRequest then s.requestBody else s.responseBody

def protocolOpen (s : Http2Stream) : Bool := s.protocol.held

def receivedBytes (s : Http2Stream) : Nat := s.receive.amount

def streamError (s : Http2Stream) (code : ErrorCode) (message : String) (http2 : Http2Code) :
    NetworkError :=
  ⟨code, message, some ⟨http2, s.id⟩⟩

end Http2Stream

namespace OnStream

/-- `protocol_.reset()`. -/
def resetProtocol (x : OnStream) : OnStream :=
  let (b, l) := x.shared.reset x.stream.protocol
  { x with
    shared := b
    stream := { x.stream with
      protocol := l
      released := x.stream.released ++
        if x.stream.protocol.held then [.hProtocolStream] else [] } }

def finishApplication (x : OnStream) : OnStream :=
  let (b, l) := x.shared.reset x.stream.application
  { x with
    shared := b
    stream := { x.stream with
      applicationFinished := true
      application := l
      released := x.stream.released ++
        if x.stream.application.held then [.hApplicationTask] else [] } }

def endApplication (x : OnStream) : OnStream :=
  if x.stream.applicationStarted then x else x.finishApplication

/-- The stream, and whether a guard is returned that holds it. -/
def startApplication (x : OnStream) : OnStream × Bool :=
  if !x.stream.protocol.held || x.stream.applicationStarted || x.stream.applicationFinished then
    (x, false)
  else ({ x with stream := { x.stream with applicationStarted := true } }, true)

def completeBodyOnce (x : OnStream) (failed : Bool) : OnStream :=
  if x.stream.bodyComplete then x
  else
    { x with stream := { x.stream with
        bodyCompletedAt := x.now, bodyFailed := failed, bodyComplete := true } }

def fail (x : OnStream) (error : NetworkError) : OnStream × NetworkError :=
  if !x.stream.protocol.held then (x, x.stream.error)
  else
    let error := if error.isError then error else ⟨.hOperationAborted, "HTTP/2 流已取消", none⟩
    let x := { x with stream := { x.stream with error := error } }
    let x := x.resetProtocol.endApplication.completeBodyOnce true
    (x, x.stream.error)

/-- `appendBody`, where strings are at most `maxSize` long; the last result tells whether the memory
for the copy was missing and the exception left the function. -/
def appendBody (maxSize : Nat) (x : OnStream) (bytes : Bytes) (allocates : Bool) :
    OnStream × NetworkError × Bool :=
  let s := x.stream
  if s.error.isError then (x, s.error, false)
  else if s.bodyComplete || !s.protocol.held || !s.initialSealed then
    let error := s.streamError .hHttp2StreamError "HTTP/2 DATA 不在有效的 body 接收阶段" .hStreamClosed
    if s.protocol.held then
      let (x, error) := x.fail error
      (x, error, false)
    else (x, error, false)
  else
    let previous := s.receive.amount
    let tooLarge := s.streamError .hResourceLimitExceeded "HTTP/2 接收 body 超过流或连接预算"
      .hEnhanceYourCalm
    if bytes.length > maxSize - previous then
      let (x, error) := x.fail tooLarge
      (x, error, false)
    else
      let (b, l, ok) := x.shared.tryResize s.receive (previous + bytes.length)
      let x := { x with shared := b, stream := { s with receive := l } }
      if !ok then
        let (x, error) := x.fail tooLarge
        (x, error, false)
      else if allocates then
        ({ x with stream := { x.stream with pendingBody := s.pendingBody ++ bytes } }, {}, false)
      else
        let (b, l, _) := x.shared.tryResize x.stream.receive previous
        ({ x with shared := b, stream := { x.stream with receive := l } }, {}, true)

def completeBody (x : OnStream) : OnStream × NetworkError :=
  if x.stream.bodyComplete then (x, if x.stream.bodyFailed then x.stream.error else {})
  else if !x.stream.initialSealed then
    x.fail (x.stream.streamError .hHttp2StreamError "HTTP/2 初始头未完成便结束 body" .hProtocolError)
  else (x.completeBodyOnce false, {})

def publishBody (x : OnStream) : OnStream × NetworkError :=
  let s := x.stream
  if s.error.isError then (x, s.error)
  else if !s.bodyComplete then (x, ⟨.hOperationInProgress, "HTTP/2 body 尚未接收完成", none⟩)
  else if s.bodyPublished then (x, {})
  else if s.incomingKind = .hRequest then
    ({ x with stream := { s with
        requestBody := s.pendingBody, pendingBody := [], bodyPublished := true } }, {})
  else
    ({ x with stream := { s with
        responseBody := s.pendingBody, pendingBody := [], bodyPublished := true } }, {})

def bodyResult (x : OnStream) (deadline : Nat) : OnStream × NetworkError :=
  let s := x.stream
  if s.bodyFailed then (x, s.error)
  else if s.bodyCompletedAt ≤ deadline then (x, {})
  else
    let timeout : NetworkError := ⟨.hTimedOut, "HTTP/2 body 在绝对截止点之后才接收完成", none⟩
    if !s.protocol.held then (x, timeout)
    else
      let (x, _) := x.fail timeout
      let x := { x with stream := { x.stream with bodyFailed := true } }
      (x, x.stream.error)

def reset (x : OnStream) (code : Http2Code) : OnStream :=
  (x.fail (x.stream.streamError .hHttp2StreamError "HTTP/2 流已复位" code)).1

def closeProtocol (x : OnStream) : OnStream :=
  if !x.stream.bodyComplete then
    (x.fail (x.stream.streamError .hHttp2StreamError "HTTP/2 流在 body 完成前关闭" .hStreamClosed)).1
  else x.resetProtocol.endApplication

/-- `waitBodyOwned` up to where it waits. -/
def waitBody (x : OnStream) (deadline : Nat) : OnStream × Option NetworkError :=
  if x.stream.bodyComplete then
    let (x, error) := x.bodyResult deadline
    (x, some error)
  else (x, none)

/-- `waitBodyOwned` from where its timer ends, with the error of the timer. -/
def wakeBody (x : OnStream) (deadline : Nat) (error : NetworkError) : OnStream × NetworkError :=
  let x := if x.stream.bodyComplete then x
    else (x.fail (if error.isError then error else ⟨.hTimedOut, "HTTP/2 body 等待超时", none⟩)).1
  x.bodyResult deadline

def reserveSend (x : OnStream) (bytes : Nat) : OnStream × Bool :=
  if x.stream.protocol.held ∨ bytes ≤ x.stream.send.amount then
    let (b, l, ok) := x.shared.tryResize x.stream.send bytes
    ({ x with shared := b, stream := { x.stream with send := l } }, ok)
  else (x, false)

end OnStream

end Hical.Http2
