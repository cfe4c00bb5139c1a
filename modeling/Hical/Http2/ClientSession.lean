import Hical.Client.Options
import Hical.Http2.Receive

namespace Hical.Http2
open Hical.Client

/-- `Http2Headers`, as far as the client session asks for it. -/
structure ResponseApi (H : Type) extends HeadersApi H where
  fields : H → Fields

/-- Not in the code: what was received of a stream when its response was ready. -/
structure Heard (H : Type) where
  terms : Terms
  log : List Signal
  initialHeaders : Option H
  trailers : Option H
  completedAt : Nat

/-- `Http2ClientSession::Impl::Context`; its stream is named by its number. -/
structure Context (H : Type) where
  stream : Nat
  result : HttpClientResult
  deadline : Nat
  completedAt : Nat := 0
  responseReady : Bool := false
  resetReceived : Bool := false
  heard : Option (Heard H) := none

/-- Where a `requestOwned` is. -/
inductive Progress where
  /-- In `waitAdmission`. -/
  | admission
  /-- In `waitBody`, with its context. -/
  | body (context : Nat)
  | returned (result : HttpClientResult)
  /-- Left by a `std::runtime_error`, which no handler of the function takes. -/
  | thrown (message : String)
  deriving DecidableEq

/-- A `requestOwned`. -/
structure ClientRequest where
  deadline : Nat
  headResponse : Bool
  progress : Progress := .admission
  /-- Not in the code: the context that it made, and the stream that was opened for it. -/
  context : Option Nat := none
  opened : Option Int := none
  deriving DecidableEq

/-- What answers a `requestOwned` from `waitAdmission` to where it waits for the body. -/
structure Submission where
  /-- What an exception of an await is made of, where the request is cancelled. -/
  cancelled : Option String := none
  /-- What `waitAdmission` returns. -/
  admission : NetworkError := {}
  /-- What `prepareHeaders` returns. -/
  prepared : NetworkError := {}
  /-- The clock before and behind `submitRequest`. -/
  before : Nat
  behind : Nat
  opened : NetworkError := {}
  peerLimit : UInt32 := 0xffffffff
  appended : NetworkError := {}
  finished : NetworkError := {}
  /-- The request is cancelled before it waits for the body. -/
  aborted : Option String := none

/-- `Http2ClientSession::Impl` with its receiver and nghttp2 behind it. -/
structure ClientSession (H : Type) where
  options : Http2Options
  receive : Receive H
  /-- The header blocks that the streams hold. -/
  initialHeaders : Nat → Option H := fun _ => none
  trailers : Nat → Option H := fun _ => none
  contexts : List (Int × Nat) := []
  made : List (Context H) := []
  error : NetworkError := {}
  lastStreamId : Int := 2147483647
  requests : List ClientRequest := []
  /-- In nghttp2: the next stream, and the streams with frames of a request that may be written. -/
  nextStreamId : Int := 1
  queued : List Int := []
  /-- Not in the code: the streams of which a frame was given to the writer, those that the peer reset
  with REFUSED_STREAM, and the last streams of its GOAWAYs. -/
  written : List Int := []
  refused : List Int := []
  goaways : List Int := []

/-- What comes from the codec, from the connection and from the timers of the requests. -/
inductive ClientEvent where
  | request (deadline : Nat) (headResponse : Bool)
  | proceed (i : Nat) (a : Submission)
  /-- The timer of `waitBody` ends. -/
  | wake (i : Nat) (error : NetworkError)
  | beginHeaders (id : Int)
  | header (id : Int) (name value : Bytes)
  | endHeaders (block : HeaderBlock)
  | data (id : Int) (bytes : Bytes) (allocates : Bool) (result : Int)
  | endStream (id : Int) (result : Int)
  | streamClose (id : Int) (code : Http2Code)
  /-- The peer resets a stream. -/
  | rstStream (id : Int) (code : Http2Code)
  | goaway (lastStreamId : Int) (code : Http2Code)
  | error (error : NetworkError)
  /-- The connection is closed, and says so. -/
  | close (error : NetworkError)
  /-- The connection stops where nghttp2 wants neither to read nor to write. -/
  | quiet
  /-- `run` of the connection ends. -/
  | ended (error : NetworkError)
  /-- The writer takes a frame of a request. -/
  | write (id : Int)
  | others (shared : Budgets)
  | clock (now : Nat)

/-- `unsent`. -/
def unsentResult (error : NetworkError) : HttpClientResult :=
  { protocol := .hHttp2, requestDisposition := .hNotSent, error }

/-- `toNetworkError` of `operation_aborted`. -/
def abortedError (message : String) : NetworkError := ⟨.hOperationAborted, message, none⟩

namespace ClientSession
variable {H : Type}

def setContext (s : ClientSession H) (k : Nat) (c : Context H) : ClientSession H :=
  { s with made := s.made.set k c }

def setRequest (s : ClientSession H) (i : Nat) (r : ClientRequest) : ClientSession H :=
  { s with requests := s.requests.set i r }

def onStream (s : ClientSession H) (i : Nat) (op : AppOp) : ClientSession H :=
  { s with receive := s.receive.settle i (op.apply (s.receive.on i)) }

def find (s : ClientSession H) (id : Int) : Option Nat := s.contexts.lookup id

def erase (s : ClientSession H) (id : Int) : ClientSession H :=
  { s with contexts := s.contexts.filter fun x => x.1 != id }

/-- What nghttp2 holds of a stream that is reset before it is written is not written any more. -/
def unqueue (s : ClientSession H) (id : Int) : ClientSession H :=
  { s with queued := s.queued.filter fun x => x != id }

/-- `Http2Codec::reset`. -/
def resetCodec (s : ClientSession H) (id : Int) : ClientSession H :=
  { s with receive := { s.receive with codec := (s.receive.codec.reset id 0).1 } }.unqueue id

def captureError (s : ClientSession H) (k : Nat) : ClientSession H :=
  match s.made[k]? with
  | some c =>
    let error := (s.receive.stream c.stream).error
    if !c.responseReady && !c.result.error.isError && error.isError then
      s.setContext k { c with result := { c.result with error } }
    else s
  | none => s

def capture (s : ClientSession H) (id : Int) : ClientSession H :=
  match s.find id with
  | some k => s.captureError k
  | none => s

def fail (s : ClientSession H) (error : NetworkError) : ClientSession H :=
  if s.error.isError then s
  else
    let error := if error.isError then error else ⟨.hOperationAborted, "HTTP/2 客户端连接已停止", none⟩
    let s := { s with error, receive := s.receive.fail error }
    { s.contexts.foldl (fun s x => s.captureError x.2) s with contexts := [] }

/-- `receive_.cancel`, with the message of what it throws. -/
def cancelReceive (s : ClientSession H) (id : Int) (code : Http2Code) :
    ClientSession H × Option String :=
  let done := s.receive.cancel id code 0
  ({ s with receive := done.1 }.unqueue id, done.2)

def cancel (s : ClientSession H) (k : Nat) (code : Http2Code) : ClientSession H × Option String :=
  match s.made[k]? with
  | some c =>
    let stream := s.receive.stream c.stream
    if (s.receive.find stream.id).isSome then
      let done := s.cancelReceive stream.id code
      match done.2 with
      | some message => (done.1, some message)
      | none => (done.1.erase stream.id, none)
    else if stream.protocolOpen then
      (((s.onStream c.stream (.reset code)).resetCodec stream.id).erase stream.id, none)
    else (s.erase stream.id, none)
  | none => (s, none)

def retireUpload (s : ClientSession H) (k : Nat) : ClientSession H × Option String :=
  match s.made[k]? with
  | some c =>
    if c.responseReady && (s.receive.stream c.stream).protocolOpen then s.cancel k .hNoError
    else (s, none)
  | none => (s, none)

/-- What `submit` does to a stream that was opened where something then fails. -/
def withdraw (s : ClientSession H) (id : Int) : ClientSession H × Option String :=
  if (s.receive.find id).isSome then s.cancelReceive id .hCancel else (s.resetCodec id, none)

/-- What a part of `requestOwned` comes to: an error, what it made, or what it throws. -/
inductive Submitted where
  | refused (error : NetworkError)
  | made (number : Nat)
  | thrown (message : String)

/-- The stream of a request, in `submit`. -/
def openStream (s : ClientSession H) (id : Int) (headResponse : Bool) (peerLimit : UInt32) :
    ClientSession H × Submitted :=
  match Http2Stream.create s.receive.shared s.receive.budget
      { streamId := id, incomingKind := .hResponse, peerLimit, options := s.options } with
  | .ok (b, some stream) =>
    let i := s.receive.made
    let added := ({ s.receive with shared := b }.add stream).addClientStream i headResponse
    ({ s with receive := added.1 }, if added.2.isError then .refused added.2 else .made i)
  | .ok (b, none) =>
    ({ s with receive := { s.receive with shared := b } },
      .refused ⟨.hResourceLimitExceeded, "HTTP/2 客户端流或应用配额已满", none⟩)
  | .error message => (s, .thrown message)

/-- `submit` with a stream that was opened. -/
def submitOpened (s : ClientSession H) (id : Int) (r : ClientRequest) (a : Submission) :
    ClientSession H × Submitted :=
  let opened := s.openStream id r.headResponse a.peerLimit
  let s := opened.1
  let refuse := fun error =>
    let done := s.withdraw id
    (done.1, match done.2 with
      | some message => Submitted.thrown message
      | none => .refused error)
  match opened.2 with
  | .thrown message => (s, .thrown message)
  | .refused error => refuse error
  | .made i =>
    if a.appended.isError then refuse a.appended
    else if a.finished.isError then refuse a.finished
    else
      let k := s.made.length
      ({ s with
          made := s.made ++ [{ stream := i, result := { protocol := .hHttp2 }, deadline := r.deadline }]
          contexts := (id, k) :: s.contexts }, .made k)

/-- `submit`, with the stream that was opened; the codec opens none once it is stopped, and nghttp2 none
behind the last number that a stream can have. -/
def submit (s : ClientSession H) (r : ClientRequest) (a : Submission) :
    ClientSession H × Option Int × Submitted :=
  if a.prepared.isError then (s, none, .refused a.prepared)
  else if r.deadline ≤ a.before then
    (s, none, .refused ⟨.hTimedOut, "HTTP/2 请求在提交协议头前超过原绝对期限", none⟩)
  else if a.opened.isError then (s, none, .refused a.opened)
  else if s.receive.codec.terminalError.isError then (s, none, .refused s.receive.codec.terminalError)
  else if 2147483647 < s.nextStreamId then (s, none, .refused (operationError (-509) 0))
  else
    let id := s.nextStreamId
    let done := { s with nextStreamId := id + 2, queued := id :: s.queued }.submitOpened id r a
    (done.1, some id, done.2)

/-- A `requestOwned` ends, with a result or by what was thrown. -/
def finish (s : ClientSession H) (i : Nat) (r : ClientRequest) (thrown : Option String)
    (result : HttpClientResult) : ClientSession H :=
  s.setRequest i { r with progress := match thrown with
    | some message => .thrown message
    | none => .returned result }

/-- The end of `requestOwned` with the result of its context, where the guard of the application goes
out of scope if there is one. -/
def giveResult (s : ClientSession H) (i : Nat) (r : ClientRequest) (k : Nat) (started : Bool)
    (thrown : Option String) : ClientSession H :=
  match s.made[k]? with
  | some c =>
    let result := c.result
    let s := if started then s.onStream c.stream .finishApplication else s
    s.finish i r thrown result
  | none => s

/-- The error of a request whose response is not ready. -/
def setError (s : ClientSession H) (k : Nat) (error : NetworkError) : ClientSession H :=
  match s.made[k]? with
  | some c =>
    if c.result.error.isError then s
    else s.setContext k { c with result := { c.result with error } }
  | none => s

/-- How `requestOwned` ends, behind `waitBody` and in its handler: without a response it is cancelled
with an error. -/
def conclude (s : ClientSession H) (i : Nat) (r : ClientRequest) (k : Nat) (ready : Bool)
    (error : NetworkError) : ClientSession H :=
  let done := if ready then (s, none) else (s.setError k error).cancel k .hCancel
  match done.2 with
  | some message => done.1.giveResult i r k true (some message)
  | none =>
    let retired := done.1.retireUpload k
    retired.1.giveResult i r k true retired.2

/-- `requestOwned` behind `waitBody`. -/
def received (s : ClientSession H) (i : Nat) (r : ClientRequest) (k : Nat) (error : NetworkError) :
    ClientSession H :=
  match s.made[k]? with
  | some c =>
    if c.responseReady && !error.isError then s.conclude i r k true {}
    else
      let s := if c.responseReady then
          s.setContext k { c with
            responseReady := false
            result := { c.result with error, body := [], trailers := [] } }
        else s
      (s.captureError k).conclude i r k false
        (if error.isError then error else ⟨.hHttp2StreamError, "HTTP/2 响应未完整结束", none⟩)
  | none => s

/-- `requestOwned` from where its context is there to where it waits for the body. -/
def await (s : ClientSession H) (i : Nat) (r : ClientRequest) (k : Nat) (a : Submission) :
    ClientSession H :=
  match s.made[k]? with
  | none => s
  | some c =>
    if r.deadline ≤ a.behind then
      let done := s.cancel k .hCancel
      done.1.finish i r done.2
        (unsentResult ⟨.hTimedOut, "HTTP/2 请求在首次发送前超过原绝对期限", none⟩)
    else
      let started := (s.receive.on c.stream).startApplication.2
      let s := s.onStream c.stream .startApplication
      if !started then
        let s := s.setContext k
          { c with result := { c.result with error := ⟨.hOperationAborted, "HTTP/2 客户端流已结束", none⟩ } }
        let done := s.cancel k .hCancel
        done.1.giveResult i r k false done.2
      else
        match a.aborted with
        | some message => s.conclude i r k c.responseReady (abortedError message)
        | none =>
          let waited := ((s.receive.on c.stream).waitBody r.deadline).2
          let s := s.onStream c.stream (.waitBody r.deadline)
          match waited with
          | some error => s.received i r k error
          | none => s.setRequest i { r with progress := .body k }

/-- `requestOwned` from where `waitAdmission` ends. -/
def proceed (s : ClientSession H) (i : Nat) (r : ClientRequest) (a : Submission) :
    ClientSession H :=
  match a.cancelled with
  | some message => s.finish i r none (unsentResult (abortedError message))
  | none =>
    if a.admission.isError then s.finish i r none (unsentResult a.admission)
    else
      let submitted := s.submit r a
      let s := submitted.1
      let r := { r with opened := submitted.2.1 }
      match submitted.2.2 with
      | .refused error => s.finish i r none (unsentResult error)
      | .thrown message => s.finish i r (some message) {}
      | .made k => s.await i { r with context := some k } k a

/-- `requestOwned` where the timer of `waitBody` ends. -/
def wake (s : ClientSession H) (i : Nat) (r : ClientRequest) (k : Nat) (error : NetworkError) :
    ClientSession H :=
  match s.made[k]? with
  | some c =>
    let waited := ((s.receive.on c.stream).wakeBody r.deadline error).2
    (s.onStream c.stream (.wakeBody r.deadline error)).received i r k waited
  | none => s

section Handlers
variable (api : ResponseApi H) (maxSize : Nat)

def onBeginHeaders (s : ClientSession H) (id : Int) : ClientSession H :=
  let done := s.receive.onBeginHeaders api.toHeadersApi id
  let s := { s with receive := done.1 }
  match done.2 with
  | .ok _ => s.capture id
  | .error _ => s

def onHeader (s : ClientSession H) (id : Int) (name value : Bytes) : ClientSession H :=
  { s with receive := (s.receive.onHeader api.toHeadersApi id name value).1 }.capture id

def keepHeaders (s : ClientSession H) (id : Int) (r : Receive H) : ClientSession H :=
  match s.receive.find id with
  | some e =>
    match e.pendingHeaders with
    | some h =>
      let h := (api.sealBlock h).1
      let before := s.receive.stream e.stream
      let behind := r.stream e.stream
      { s with
        receive := r
        initialHeaders := if !before.initialSealed && behind.initialSealed then
          Function.update s.initialHeaders e.stream (some h) else s.initialHeaders
        trailers := if !before.trailersSealed && behind.trailersSealed then
          Function.update s.trailers e.stream (some h) else s.trailers }
    | none => { s with receive := r }
  | none => { s with receive := r }

/-- The fields of a header block, as `copyFields` takes them. -/
def fieldsOf (h : Option H) : Fields := (h.map api.fields).getD []

def statusOf (h : Option H) : Int := (h.map fun h => (api.status h : Int)).getD 0

def copyHeader (s : ClientSession H) (k : Nat) (c : Context H) : ClientSession H :=
  if (s.receive.stream c.stream).initialSealed && c.result.status = 0 then
    s.setContext k { c with result := { c.result with
      status := statusOf api (s.initialHeaders c.stream)
      headers := c.result.headers ++ fieldsOf api (s.initialHeaders c.stream) } }
  else s

def onEndHeaders (s : ClientSession H) (block : HeaderBlock) : ClientSession H :=
  let s := s.keepHeaders api block.streamId
    (s.receive.onEndHeaders api.toHeadersApi block []).1
  match s.find block.streamId with
  | some k =>
    match s.made[k]? with
    | some c => (s.copyHeader api k c).captureError k
    | none => s
  | none => s

def onData (s : ClientSession H) (id : Int) (bytes : Bytes) (allocates : Bool) (result : Int) :
    ClientSession H :=
  let done := s.receive.onData maxSize id bytes allocates result
  let s := { s with receive := done.1 }
  match done.2 with
  | .ok _ => s.capture id
  | .error _ => s

/-- `onEndStream` behind the receiver's, with the context of the stream. -/
def complete (s : ClientSession H) (k : Nat) : ClientSession H :=
  match s.made[k]? with
  | some c =>
    let stream := s.receive.stream c.stream
    if !c.responseReady && !c.result.error.isError && stream.bodyComplete then
      let error := (s.receive.on c.stream).publishBody.2
      let s := s.onStream c.stream .publishBody
      if error.isError then s.setContext k { c with result := { c.result with error } }
      else
        s.setContext k { c with
          result := { c.result with
            body := (s.receive.stream c.stream).responseBody
            trailers := c.result.trailers ++ fieldsOf api (s.trailers c.stream) }
          completedAt := s.receive.now
          responseReady := true
          heard := some ⟨⟨true, (s.receive.objects c.stream).headResponse⟩, (s.receive.objects c.stream).log,
            s.initialHeaders c.stream, s.trailers c.stream, stream.bodyCompletedAt⟩ }
    else s
  | none => s

def onEndStream (s : ClientSession H) (id : Int) (result : Int) : ClientSession H :=
  let done := s.receive.onEndStream id result
  let s := { s with receive := done.1 }
  match done.2 with
  | some _ => s
  | none =>
    match s.find id with
    | some k => (s.captureError k).complete api k
    | none => s

def onError (s : ClientSession H) (error : NetworkError) : ClientSession H :=
  match error.http2 with
  | some info =>
    if 0 < info.streamId then
      let s := match s.find info.streamId with
        | some k =>
          match s.made[k]? with
          | some c =>
            if c.responseReady then s
            else
              let result := if info.code = Http2Code.hRefusedStream then
                { c.result with requestDisposition := .hNotProcessed } else c.result
              s.setContext k { c with
                result := if result.error.isError then result else { result with error } }
          | none => s
        | none => s
      { s with receive := s.receive.onError error }
    else s.fail error
  | none => s.fail error

def onStreamClose (s : ClientSession H) (id : Int) (code : Http2Code) : ClientSession H :=
  let s := match s.find id with
    | some k =>
      match s.made[k]? with
      | some c =>
        if c.resetReceived && code = Http2Code.hNoError && !c.responseReady then
          let error : NetworkError := ⟨.hHttp2StreamError, "HTTP/2 对端已复位未完成的响应", some ⟨code, id⟩⟩
          let s := if c.result.error.isError then s
            else s.setContext k { c with result := { c.result with error } }
          { s with receive := s.receive.onError error }
        else s
      | none => s
    | none => s
  ({ s with receive := s.receive.onStreamClose id code }.capture id).erase id

/-- `Http2Codec::Impl::notifyError`. -/
def notifyError (s : ClientSession H) (id : Int) (code : Http2Code) : ClientSession H :=
  if code = .hNoError then s else s.onError (protocolError id code)

/-- `Http2Codec::Impl::streamClose`; nothing of a closed stream is written any more. -/
def streamClose (s : ClientSession H) (id : Int) (code : Http2Code) : ClientSession H :=
  ((s.unqueue id).notifyError id code).onStreamClose id code

/-- `onFrameReceived` with a RST_STREAM. -/
def onReset (s : ClientSession H) (id : Int) (code : Http2Code) : ClientSession H :=
  let s := if code = .hRefusedStream then { s with refused := id :: s.refused } else s
  match s.find id with
  | some k =>
    match s.made[k]? with
    | some c => s.setContext k { c with resetReceived := true }
    | none => s
  | none => s

/-- The loop of `onGoaway` over the contexts, at one of them. -/
def refuseContext (error : NetworkError) (s : ClientSession H) (x : Int × Nat) : ClientSession H :=
  match s.made[x.2]? with
  | some c =>
    if x.1 > s.lastStreamId && !c.responseReady then
      (s.setContext x.2 { c with result := { c.result with
        requestDisposition := .hNotProcessed, error } }).onStream c.stream (.fail error)
    else s
  | none => s

/-- The contexts that `onGoaway` cancels. -/
def refusedContexts (s : ClientSession H) : List Nat :=
  (s.contexts.filter fun x => x.1 > s.lastStreamId &&
    (s.made[x.2]?.map fun c => !c.responseReady).getD false).map (·.2)

/-- The loop of `onGoaway` over the contexts that it cancels. -/
def cancelAll : List Nat → ClientSession H → ClientSession H × Option String
  | [], s => (s, none)
  | k :: rest, s =>
    let done := s.cancel k .hCancel
    match done.2 with
    | some message => (done.1, some message)
    | none => cancelAll rest done.1

def onGoaway (s : ClientSession H) (lastStreamId : Int) (code : Http2Code) :
    ClientSession H × Option String :=
  let s := { s with
    lastStreamId := min s.lastStreamId lastStreamId, goaways := lastStreamId :: s.goaways }
  let error := ⟨.hHttp2ConnectionError, "HTTP/2 对端已发送 GOAWAY", some ⟨code, 0⟩⟩
  let refused := s.refusedContexts
  cancelAll refused (s.contexts.foldl (refuseContext error) s)

/-- What `Http2Codec::Impl::frameReceived` does with a GOAWAY. -/
def goaway (s : ClientSession H) (lastStreamId : Int) (code : Http2Code) : ClientSession H :=
  let done := s.onGoaway lastStreamId code
  match done.2 with
  | some _ => done.1
  | none => done.1.notifyError 0 code

/-- `close` of the connection, which stops the output and tells the session. -/
def close (s : ClientSession H) (error : NetworkError) : ClientSession H :=
  let codec := { s.receive.codec with terminalError :=
    if s.receive.codec.terminalError.isError then s.receive.codec.terminalError
    else ⟨.hOperationAborted, "HTTP/2 输出已停止", none⟩ }
  { s with receive := { s.receive with codec }, queued := [] }.fail error

/-- The connection stops without a word, which it does where nghttp2 has no stream left. -/
def quiet (s : ClientSession H) : ClientSession H :=
  if s.receive.streams.isEmpty then
    let codec := { s.receive.codec with terminalError :=
      if s.receive.codec.terminalError.isError then s.receive.codec.terminalError
      else ⟨.hOperationAborted, "HTTP/2 输出已停止", none⟩ }
    { s with receive := { s.receive with codec }, queued := [] }
  else s

def onRequest (s : ClientSession H) (i : Nat) (f : ClientRequest → ClientSession H) :
    ClientSession H :=
  match s.requests[i]? with
  | some r => f r
  | none => s

/-- One event; where it cannot happen, nothing does. -/
def step (s : ClientSession H) : ClientEvent → ClientSession H
  | .request deadline headResponse =>
    { s with requests := s.requests ++ [{ deadline, headResponse }] }
  | .proceed i a => s.onRequest i fun r =>
    match r.progress with
    | .admission => s.proceed i r a
    | _ => s
  | .wake i error => s.onRequest i fun r =>
    match r.progress with
    | .body k => s.wake i r k error
    | _ => s
  | .beginHeaders id => s.onBeginHeaders api id
  | .header id name value => s.onHeader api id name value
  | .endHeaders block => s.onEndHeaders api block
  | .data id bytes allocates result => s.onData maxSize id bytes allocates result
  | .endStream id result => s.onEndStream api id result
  | .streamClose id code => s.streamClose id code
  | .rstStream id code => s.onReset id code
  | .goaway lastStreamId code => s.goaway lastStreamId code
  | .error error => s.onError error
  | .close error => s.close error
  | .quiet => s.quiet
  | .ended error => s.fail error
  | .write id => if s.queued.contains id then { s with written := id :: s.written } else s
  | .others shared => { s with receive := { s.receive with shared } }
  | .clock now => { s with receive := { s.receive with now } }

def run (s : ClientSession H) (events : List ClientEvent) : ClientSession H :=
  events.foldl (step api maxSize) s

end Handlers

/-- The constructor, which refuses an invalid configuration. -/
def create (options : Http2Options) (budget : Http2Budget) (shared : Budgets) :
    Except String (ClientSession H) :=
  match options.validationError with
  | some error => .error error
  | none => .ok { options, receive := { role := .hClient, options, budget, shared } }

end ClientSession

end Hical.Http2
