import Hical.Http2.Receive

namespace Hical.Http2

/-- `Http2ServerSession::Job`, without what it sends. -/
structure Job where
  stream : Nat
  responseSubmitted : Bool := false
  responseWritten : Bool := false
  remoteEnded : Bool := false
  peerReset : Bool := false
  discardIncoming : Bool := false
  collectingDiscardedTrailers : Bool := false

/-- `Http2ServerSession` with its receiver and the codec behind it. -/
structure Server (H : Type) where
  receive : Receive H
  jobs : Int → Option Job := fun _ => none
  draining : Bool := false
  lastAccepted : Int := 0
  /-- A callback has failed: nghttp2 takes nothing more. -/
  terminated : Bool := false
  /-- Not in the code: what nghttp2 reported through `dataChunk`. -/
  reported : List Nat := []

/-- What comes from nghttp2, from the application and from the connection, with the results of
nghttp2, of the mapping of a request and of header blocks. -/
inductive ServerEvent where
  | beginHeaders (id : Int) (reset : Int)
  | header (id : Int) (name value : Bytes) (within : Bool) (appended : NetworkError) (reset : Int)
  | invalidHeader (id : Int) (reset : Int)
  | headers (block : HeaderBlock) (mapping sealing : NetworkError) (cancel reset ended : Int)
  | dataChunk (id : Int) (bytes : Bytes) (allocates : Bool) (consume reset connection : Int)
  | dataEnd (id : Int) (reset : Int)
  | rstStream (id : Int)
  | streamClose (id : Int) (code : Http2Code)
  | error (error : NetworkError)
  | responds (id : Int) (submitted : NetworkError) (reset : Int)
  | expires (id : Int) (error : NetworkError) (reset : Int)
  | written (id : Int) (reset : Int)
  | finishes (id : Int)
  | drain
  | action (a : Action)

namespace Server

def setJob (s : Server H) (id : Int) (job : Job) : Server H :=
  { s with jobs := Function.update s.jobs id (some job) }

def resetStream (s : Server H) (id : Int) (code : Http2Code) (result : Int) : Server H :=
  match s.receive.find id with
  | some _ => { s with receive := (s.receive.cancel id code result).1 }
  | none =>
    { s with receive := { s.receive with codec := (s.receive.codec.reset id result).1 } }

/-- `headersReady`, as what it does to the receiver and the job that it starts. -/
def headersReady (s : Server H) (i : Nat) (id : Int) (mapping : NetworkError) (result : Int) :
    List Action × Option Job :=
  if s.draining then ([.cancel id .hRefusedStream result], none)
  else if mapping.isError then
    ([.onStream i (.fail mapping), .cancel id .hInternalError result], none)
  else ([.onStream i .startApplication], some { stream := i })

def discardedRequest (s : Server H) (id : Int) : Option Job :=
  match s.jobs id with
  | none => none
  | some job =>
    if job.discardIncoming && !job.peerReset && !job.remoteEnded &&
        (s.receive.find id).any fun e => e.stream == job.stream then some job
    else none

def headerCode (error : NetworkError) : Http2Code :=
  if !error.isError then .hNoError
  else if error.code = .hResourceLimitExceeded then .hEnhanceYourCalm else .hProtocolError

section Events
variable (api : HeadersApi H) (maxSize : Nat)

def onBeginHeaders (s : Server H) (id : Int) : Server H × Except String Http2Code :=
  match s.discardedRequest id with
  | some job =>
    if job.collectingDiscardedTrailers || (s.receive.stream job.stream).trailersSealed then
      (s, .ok .hProtocolError)
    else (s.setJob id { job with collectingDiscardedTrailers := true }, .ok .hNoError)
  | none =>
    if s.draining && (s.receive.find id).isNone then (s, .ok .hRefusedStream)
    else
      let done := s.receive.onBeginHeaders api id
      ({ s with receive := done.1 }, done.2)

def onHeader (s : Server H) (id : Int) (name value : Bytes) (appended : NetworkError) :
    Server H × Http2Code :=
  match (s.discardedRequest id).filter fun job => job.collectingDiscardedTrailers with
  | some _ => (s, headerCode appended)
  | none =>
    let done := s.receive.onHeader api id name value
    ({ s with receive := done.1 }, done.2)

/-- What `Http2Receive::onEndHeaders` and its callback leave. -/
def onInitialHeaders (s : Server H) (block : HeaderBlock) (mapping : NetworkError) (cancel : Int) :
    Server H × Http2Code :=
  match s.receive.find block.streamId with
  | none =>
    let done := s.receive.onEndHeaders api block []
    ({ s with receive := done.1 }, done.2)
  | some e =>
    let ready := s.headersReady e.stream block.streamId mapping cancel
    let done := s.receive.onEndHeaders api block ready.1
    let s' := { s with receive := done.1 }
    -- The callback was called if the initial header became sealed.
    if (done.1.stream e.stream).initialSealed && !(s.receive.stream e.stream).initialSealed then
      match ready.2 with
      | some job =>
        ({ s'.setJob block.streamId job with lastAccepted := max s.lastAccepted block.streamId },
          done.2)
      | none => (s', done.2)
    else (s', done.2)

def onEndHeaders (s : Server H) (block : HeaderBlock) (mapping sealing : NetworkError)
    (cancel : Int) : Server H × Http2Code :=
  match (s.discardedRequest block.streamId).filter fun job => job.collectingDiscardedTrailers with
  | some job =>
    let s := s.setJob block.streamId { job with collectingDiscardedTrailers := false }
    if block.kind ≠ .hTrailers ∨ block.endStream = false then (s, .hProtocolError)
    else if sealing.isError then (s, headerCode sealing)
    else
      ({ s with receive := s.receive.settle job.stream { s.receive.on job.stream with
          stream := { s.receive.stream job.stream with trailersSealed := true } } }, .hNoError)
  | none => s.onInitialHeaders api block mapping cancel

def onData (s : Server H) (id : Int) (bytes : Bytes) (allocates : Bool) (consume : Int) :
    Server H × Except String Http2Code :=
  match s.discardedRequest id with
  | some _ =>
    let done := s.receive.codec.consume id bytes.length consume
    let s := { s with receive := { s.receive with codec := done.1 } }
    if done.2.isError then (s, .error done.2.message) else (s, .ok .hNoError)
  | none =>
    let done := s.receive.onData maxSize id bytes allocates consume
    ({ s with receive := done.1 }, done.2)

def onEndStream (s : Server H) (id : Int) (reset : Int) : Server H × Option String :=
  match s.jobs id with
  | some job =>
    let s := s.setJob id { job with remoteEnded := true }
    if job.discardIncoming then
      ({ s with receive := s.receive.settle job.stream (s.receive.on job.stream).completeBody.1 }, none)
    else
      let done := s.receive.onEndStream id reset
      ({ s with receive := done.1 }, done.2)
  | none =>
    let done := s.receive.onEndStream id reset
    ({ s with receive := done.1 }, done.2)

def onStreamClose (s : Server H) (id : Int) (code : Http2Code) : Server H :=
  let s := { s with receive := s.receive.onStreamClose id code }
  match s.jobs id with
  | some job =>
    if code ≠ .hNoError ∨ job.responseSubmitted = false then s.setJob id { job with peerReset := true }
    else s
  | none => s

/-- `onFrameReceived` for RST_STREAM. -/
def onReset (s : Server H) (id : Int) : Server H :=
  match s.jobs id with
  | some job => s.setJob id { job with peerReset := true }
  | none => s

/-- `Http2Codec::Impl::reject`, where the callback fails if nghttp2 does not take the RST_STREAM. -/
def reject (s : Server H) (id : Int) (reset : Int) : Server H :=
  { s with
    receive := { s.receive with codec := (s.receive.codec.reject id reset).1 }
    terminated := s.terminated || reset != 0 }

/-- The callback of the codec behind an answer of the listener. -/
def answered (s : Server H) (id : Int) (code : Except String Http2Code) (reset : Int) : Server H :=
  match code with
  | .error _ => { s with terminated := true }
  | .ok code => if code = .hNoError then s else s.reject id reset

def endsStream (s : Server H) (id : Int) (reset : Int) : Server H :=
  if s.receive.codec.marked id then s
  else
    let done := s.onEndStream id reset
    match done.2 with
    | some _ => { done.1 with terminated := true }
    | none => done.1

/-- `Http2Codec::Impl::dataChunk`. -/
def dataChunk (s : Server H) (id : Int) (bytes : Bytes) (allocates : Bool)
    (consume reset connection : Int) : Server H :=
  let s := { s with reported := s.reported ++ [bytes.length] }
  let give := fun (s : Server H) =>
    { s with
      receive := { s.receive with codec := (s.receive.codec.giveBack bytes.length connection).1 }
      terminated := s.terminated || connection != 0 }
  if s.receive.codec.marked id then give s
  else
    let done := s.onData maxSize id bytes allocates consume
    match done.2 with
    | .error _ => { done.1 with terminated := true }
    | .ok code =>
      if code = .hNoError then done.1
      else
        let s := done.1.reject id reset
        if reset != 0 then s else give s

/-- The application has returned: what comes in is discarded from here on. -/
def responds (s : Server H) (id : Int) (submitted : NetworkError) (reset : Int) : Server H :=
  match s.jobs id with
  | none => s
  | some job =>
    let job := { job with discardIncoming := !job.remoteEnded }
    let s := s.setJob id job
    if job.peerReset || !(s.receive.find id).any fun e => e.stream == job.stream then s
    else if submitted.isError then
      s.resetStream id (if submitted.code = .hResourceLimitExceeded then .hEnhanceYourCalm
        else .hInternalError) reset
    else s.setJob id { job with responseSubmitted := true }

/-- The response is not sent in time, or its file cannot be read. -/
def expires (s : Server H) (id : Int) (error : NetworkError) (reset : Int) : Server H :=
  match s.jobs id with
  | none => s
  | some job =>
    if job.peerReset || job.responseWritten then s
    else
      let s := { s with
        receive := s.receive.settle job.stream ((s.receive.on job.stream).fail error).1 }
      s.resetStream id .hCancel reset

def written (s : Server H) (id : Int) (reset : Int) : Server H :=
  match s.jobs id with
  | none => s
  | some job =>
    let s := s.setJob id { job with responseWritten := true }
    if !job.remoteEnded && (s.receive.find id).isSome then s.resetStream id .hNoError reset else s

def handle (s : Server H) : ServerEvent → Server H
  | .beginHeaders id reset =>
    let done := s.onBeginHeaders api id
    done.1.answered id done.2 reset
  | .header id name value within appended reset =>
    if within then
      let done := s.onHeader api id name value appended
      done.1.answered id (.ok done.2) reset
    else s.answered id (.ok .hEnhanceYourCalm) reset
  | .invalidHeader id reset => s.reject id reset
  | .headers block mapping sealing cancel reset ended =>
    let s :=
      if s.receive.codec.marked block.streamId then s
      else
        let done := s.onEndHeaders api block mapping sealing cancel
        done.1.answered block.streamId (.ok done.2) reset
    if s.terminated || !block.endStream then s else s.endsStream block.streamId ended
  | .dataChunk id bytes allocates consume reset connection =>
    s.dataChunk maxSize id bytes allocates consume reset connection
  | .dataEnd id reset => s.endsStream id reset
  | .rstStream id => s.onReset id
  | .streamClose id code =>
    let s := if code = .hNoError then s
      else { s with receive := s.receive.onError (protocolError id code) }
    let s := s.onStreamClose id code
    { s with receive := { s.receive with codec := { s.receive.codec with
      marked := Function.update s.receive.codec.marked id false } } }
  | .error error => { s with receive := s.receive.onError error }
  | .responds id submitted reset => s.responds id submitted reset
  | .expires id error reset => s.expires id error reset
  | .written id reset => s.written id reset
  | .finishes id => { s with jobs := Function.update s.jobs id none }
  | .drain => { s with draining := true }
  | .action a => { s with receive := s.receive.act a }

/-- Nothing more is taken behind a callback that failed. -/
def step (s : Server H) (event : ServerEvent) : Server H :=
  if s.terminated then s else s.handle api maxSize event

def run (s : Server H) (events : List ServerEvent) : Server H := events.foldl (step api maxSize) s

end Events

end Server

end Hical.Http2
