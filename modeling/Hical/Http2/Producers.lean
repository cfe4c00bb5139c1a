import Hical.Http2.Output
import Hical.Http2.Response
import Mathlib.Data.List.AList

namespace Hical.Http2

def kMinimumWireCapacity : Nat := 128

def kHeaderEncodingSlack : Nat := 32

/-- `Http2Output::State::wireCapacity`. -/
def wireCapacity (options : Http2Options) : Nat :=
  let headerFrames := options.maxHeaderBytes.toNat / kMinFrameBytes + 1
  let headerOverhead := kHeaderEncodingSlack + headerFrames * kFrameHeaderBytes
  max kMinimumWireCapacity
    (max options.maxOutputBatchBytes.toNat (options.maxHeaderBytes.toNat + headerOverhead))

/-- `Http2Output::Producer::Impl`. What was read to its end, or cancelled, has nothing queued. -/
structure DataProducer where
  chunks : List Bytes := []
  trailerBlock : Option Fields := none
  frontOffset : Nat := 0
  /-- What its lease on the send budget holds. -/
  amount : Nat := 0
  finished : Bool := false
  cancelled : Bool := false
  deferred : Bool := false
  eofRead : Bool := false
  readStarted : Bool := false
  drained : eofRead = true → finished = true ∧ chunks = [] := by nofun
  emptied : cancelled = true → chunks = [] := by nofun

/-- What nghttp2 says about a connection. -/
structure Library where
  /-- `peerWindow()`. -/
  connectionWindow : Int
  /-- `peerWindow(streamId)`, which is -1 where it knows no such stream. -/
  streamWindow : Int → Int
  activeLocalStreamCount : Nat
  peerMaxConcurrentStreams : Nat
  /-- How many queued control and header frames it could send. -/
  sendable : Nat
  wantRead : Bool
  wantWrite : Bool

/-- A call of `reserveRead` that waits; `notified` when its timer was cancelled since. -/
structure FileReader where
  streamId : Int
  maximum : Nat
  notified : Bool := false
  deriving DecidableEq

structure ReadPermit where
  streamId : Int
  size : Nat
  deriving DecidableEq

/-- Where `writeLoop` is. -/
inductive WriterState where
  | running
  /-- In the wait on `writerWake_`, which was cancelled since or not. -/
  | waiting (woken : Bool)
  | writing
  | done
  deriving DecidableEq

/-- What cancelling `writerWake_` does. -/
def WriterState.woken : WriterState → WriterState
  | .waiting _ => .waiting true
  | w => w

/-- `Http2Connection` with its `Http2Output`. `stopped_` and the `closed` of the output, which are
set together, are one. -/
structure Http2Connection where
  role : Role
  options : Http2Options
  valid : options.validationError = none
  library : Library
  /-- `Http2Codec::Impl::pendingOutput_`. -/
  pendingOutput : Bytes := []
  output : Output
  producers : AList fun _ : Int => DataProducer := ∅
  readCredit : Bool := false
  selectedStream : Int := 0
  lastReadStream : Int := 0
  /-- `budget.usage().sendBytes`. -/
  sendBytes : Nat
  readers : List FileReader := []
  permits : List ReadPermit := []
  writer : WriterState := .running
  finishing : Bool := false

/-- A call of the application or of the sessions, with what nghttp2 answers to it. -/
inductive PumpCall where
  | append (streamId : Int) (bytes : Bytes) (resumed : Option NetworkError)
  | appendChunks (streamId : Int) (chunks : List Bytes) (resumed : Option NetworkError)
  | reserveRead (streamId : Int) (maximum : Nat) (late : Bool)
  | appendReserved (streamId : Int) (bytes : Bytes) (permit : Nat) (resumed : Option NetworkError)
  | release (permit : Nat)
  | finish (streamId : Int) (trailers : Fields) (resumed : Option NetworkError)
  | cancel (streamId : Int)
  | cancelStream (streamId : Int)
  /-- nghttp2 closed the stream. -/
  | streamClose (streamId : Int) (code : Http2Code)
  /-- `submitRequest` or `submitResponse`, which the codec took. -/
  | submit (streamId : Int) (sendable : Nat)
  | submitResponseHeaders (streamId : Int) (sendable : Nat)
  /-- `reset`, `goaway`, `consume` and the like; the sessions wake the writer behind them. -/
  | control (sendable : Nat)
  | finishConnection
  | close

/-- A callback of `nghttp2_session_mem_send2`. -/
inductive SendCallback where
  /-- `readData`, with the length of the buffer. -/
  | read (streamId : Int) (length : Nat)
  | call (c : PumpCall)

/-- What nghttp2 does and answers in `nextBatch`. -/
structure SendAnswer where
  submitTrailers : Option NetworkError := none
  resumed : Option NetworkError := none
  callbacks : List SendCallback := []
  bytes : Except NetworkError Bytes
  /-- Afterwards. -/
  library : Library

namespace Http2Connection

def source (c : Http2Connection) (streamId : Int) : Option DataProducer :=
  c.producers.lookup streamId

def setSource (c : Http2Connection) (streamId : Int) (p : DataProducer) : Http2Connection :=
  { c with producers := c.producers.insert streamId p }

def eraseSource (c : Http2Connection) (streamId : Int) : Http2Connection :=
  { c with producers := c.producers.erase streamId }

/-- `State::wake` and `wakeWriter`. -/
def wake (c : Http2Connection) : Http2Connection :=
  if c.output.closed then c else { c with writer := c.writer.woken }

def notifyReaders (c : Http2Connection) : Http2Connection :=
  { c with readers := c.readers.map fun r => { r with notified := true } }

/-- `canProduce`; a stream that is not registered was cancelled. -/
def canProduce (c : Http2Connection) (streamId : Int) : Option NetworkError :=
  match c.source streamId with
  | none => some (cancelledError streamId)
  | some p =>
    if c.output.closed ∨ p.cancelled then some (cancelledError streamId)
    else if p.finished then
      some { code := .hInvalidConfiguration, message := "HTTP/2 DATA 生产者已经结束" }
    else none

/-- `tryResize` gives the lease of a producer this amount. -/
def fits (c : Http2Connection) (p : DataProducer) (amount : Nat) : Bool :=
  decide (amount ≤ p.amount ∨ c.sendBytes - p.amount + amount ≤ c.options.maxConnectionSendBytes.toNat)

def replace (c : Http2Connection) (streamId : Int) (p changed : DataProducer) : Http2Connection :=
  { c.setSource streamId changed with sendBytes := c.sendBytes - p.amount + changed.amount }

/-- `Impl::ready` behind a change to the producer, which is taken back when nghttp2 does not take
the stream up again. -/
def ready (c : Http2Connection) (streamId : Int) (p changed : DataProducer)
    (resumed : Option NetworkError) : Http2Connection × Option NetworkError :=
  match p.deferred, resumed with
  | true, some error => (c, some error)
  | _, _ => ((c.replace streamId p { changed with deferred := false }).wake, none)

/-- What `append`, `appendOwned` and `appendChunks` do with their bytes. -/
def push (c : Http2Connection) (streamId : Int) (bytes : Bytes) (resumed : Option NetworkError) :
    Http2Connection × Option NetworkError :=
  match c.source streamId with
  | none => (c, some (cancelledError streamId))
  | some p =>
    if h : p.cancelled = true ∨ p.finished = true then (c, c.canProduce streamId)
    else if bytes = [] then (c, none)
    else if kMaxProducerChunks ≤ p.chunks.length ∨ kMaxSize - p.amount < bytes.length ∨
        c.fits p (p.amount + bytes.length) = false then (c, some (resourceError streamId))
    else
      c.ready streamId p
        { p with
          chunks := p.chunks ++ [bytes]
          amount := p.amount + bytes.length
          drained := fun he => absurd (Or.inr (p.drained he).1) h
          emptied := fun hc => absurd (Or.inl hc) h } resumed

/-- `append`, and `appendOwned`, which does not copy. -/
def append (c : Http2Connection) (streamId : Int) (bytes : Bytes) (resumed : Option NetworkError) :
    Http2Connection × Option NetworkError :=
  match c.canProduce streamId with
  | some error => (c, some error)
  | none => c.push streamId bytes resumed

def appendChunks (c : Http2Connection) (streamId : Int) (chunks : List Bytes)
    (resumed : Option NetworkError) : Http2Connection × Option NetworkError :=
  match c.canProduce streamId with
  | some error => (c, some error)
  | none =>
    match chunksLength 0 chunks with
    | none => (c, some (resourceError streamId))
    | some _ => c.push streamId chunks.flatten resumed

def trailerBytes (trailers : Fields) : Nat :=
  (trailers.map fun f => Http2Headers.fieldSize f.name f.value).sum

def finish (c : Http2Connection) (streamId : Int) (trailers : Fields)
    (resumed : Option NetworkError) : Http2Connection × Option NetworkError :=
  match c.canProduce streamId, c.source streamId with
  | some error, _ => (c, some error)
  | none, none => (c, none)
  | none, some p =>
    let amount := p.amount + trailerBytes trailers
    if Producer.trailersFit c.options.maxHeaderBytes.toNat 0 trailers = false ∨
        kMaxSize - p.amount < trailerBytes trailers ∨ c.fits p amount = false then
      (c, some (resourceError streamId))
    else
      match Producer.keptBlock streamId c.options trailers with
      | .error error => (c, some error)
      | .ok trailerBlock =>
        c.ready streamId p
          { p with
            trailerBlock := trailerBlock
            amount := amount
            finished := true
            drained := fun he => ⟨rfl, (p.drained he).2⟩ } resumed

/-- A producer behind `stop`. -/
def stoppedProducer (p : DataProducer) : DataProducer :=
  { p with
    chunks := []
    trailerBlock := none
    frontOffset := 0
    amount := 0
    cancelled := true
    drained := fun he => ⟨(p.drained he).1, rfl⟩
    emptied := fun _ => rfl }

def deselect (c : Http2Connection) (streamId : Int) : Http2Connection :=
  if c.selectedStream = streamId then { c with selectedStream := 0, readCredit := false } else c

/-- The end of the stream is not awaited any more. -/
def erasePending (c : Http2Connection) (streamId : Int) : Http2Connection :=
  { c with output := c.output.change (.cancel streamId) }

/-- `Producer::stop`, with the cancel handler left to the calls that follow. -/
def stop (c : Http2Connection) (streamId : Int) (cancelPending : Bool) : Http2Connection :=
  let c := if cancelPending then c.erasePending streamId else c
  match c.source streamId with
  | none => c
  | some p =>
    if p.cancelled then c
    else ((c.deselect streamId).replace streamId p (stoppedProducer p)).notifyReaders.wake

def cancel (c : Http2Connection) (streamId : Int) : Http2Connection := c.stop streamId true

def cancelStream (c : Http2Connection) (streamId : Int) : Http2Connection :=
  ((c.cancel streamId).eraseSource streamId).wake

/-- `Producer::onClose`. -/
def onClose (c : Http2Connection) (streamId : Int) (code : Http2Code) : Http2Connection :=
  (c.stop streamId (decide (code ≠ .hNoError))).eraseSource streamId

/-- `Http2Output::onStreamClose`. -/
def onStreamClose (c : Http2Connection) (streamId : Int) (code : Http2Code) : Http2Connection :=
  if code ≠ .hNoError then c.cancelStream streamId
  else
    match c.source streamId with
    | none => c
    | some _ => c.onClose streamId code

/-- `Http2Codec::Impl::streamClose`: the data source hears of it, then the listener. -/
def streamClose (c : Http2Connection) (streamId : Int) (code : Http2Code) : Http2Connection :=
  (c.onClose streamId code).onStreamClose streamId code

/-- What is left of the send budget. -/
def available (c : Http2Connection) : Nat :=
  c.options.maxConnectionSendBytes.toNat - c.sendBytes

/-- The queue of the producer is empty, both windows are open and the budget is not used up. -/
def mayRead (c : Http2Connection) (streamId : Int) : Bool :=
  (c.source streamId).all (·.chunks.isEmpty) && decide (0 < c.library.connectionWindow) &&
    decide (0 < c.library.streamWindow streamId) && decide (0 < c.available)

/-- A turn of the loop of `reserveOwned`, where `late` says that the deadline is past. -/
def reserve (c : Http2Connection) (streamId : Int) (maximum : Nat) (late : Bool) :
    Http2Connection :=
  if (c.canProduce streamId).isSome ∨ late = true then c
  else if c.mayRead streamId then
    let count := min (min maximum c.available)
      (min c.library.connectionWindow (c.library.streamWindow streamId)).toNat
    { c with sendBytes := c.sendBytes + count, permits := c.permits ++ [⟨streamId, count⟩] }
  else { c with readers := c.readers ++ [{ streamId, maximum }] }

def reserveRead (c : Http2Connection) (streamId : Int) (maximum : Nat) (late : Bool) :
    Http2Connection :=
  if maximum = 0 ∨ c.options.maxFilePrefetchBytes.toNat < maximum then c
  else c.reserve streamId maximum late

/-- `ReadPermit::release`. -/
def release (c : Http2Connection) (permit : Nat) : Http2Connection :=
  match c.permits[permit]? with
  | none => c
  | some r =>
    { c with permits := c.permits.eraseIdx permit, sendBytes := c.sendBytes - r.size }.notifyReaders

/-- The permit goes with the call, also when it does not fit. -/
def appendReserved (c : Http2Connection) (streamId : Int) (bytes : Bytes) (permit : Nat)
    (resumed : Option NetworkError) : Http2Connection × Option NetworkError :=
  if (c.permits[permit]?).all fun r => decide (r.streamId ≠ streamId ∨ r.size < bytes.length) then
    (c.release permit,
      some ⟨.hInvalidConfiguration, "HTTP/2 预取额度不属于当前生产者或字节数超额", none⟩)
  else (c.release permit).append streamId bytes resumed

/-- The new frames are for nghttp2 to send. -/
def queue (c : Http2Connection) (output : Output) (sendable : Nat) : Http2Connection :=
  { c with output := output, library := { c.library with sendable := sendable } }

/-- `producers.emplace`. -/
def register (c : Http2Connection) (streamId : Int) : Http2Connection :=
  if (c.source streamId).isSome then c else c.setSource streamId {}

def submit (c : Http2Connection) (streamId : Int) (sendable : Nat) : Http2Connection :=
  if c.output.closed then c
  else ((c.register streamId).queue (c.output.change (.submit streamId)) sendable).wake

def submitResponseHeaders (c : Http2Connection) (streamId : Int) (sendable : Nat) :
    Http2Connection :=
  if c.output.closed ∨ streamId ∈ c.output.pendingEnds then c
  else (c.queue (c.output.change (.submit streamId)) sendable).wake

def control (c : Http2Connection) (sendable : Nat) : Http2Connection :=
  (c.queue c.output sendable).wake

/-- `Http2Connection::finish`. -/
def finishConnection (c : Http2Connection) : Http2Connection := { c with finishing := true }.wake

/-- `Http2Output::close`. -/
def closeOutput (c : Http2Connection) : Http2Connection :=
  if c.output.closed then c
  else
    let closed := { c with output := c.output.change .close }
    let c := c.producers.keys.foldl (fun c streamId => c.cancel streamId) closed
    { c with producers := ∅, pendingOutput := [] }

/-- `stopTransport`, without what it reports. -/
def close (c : Http2Connection) : Http2Connection :=
  if c.output.closed then c else { c with writer := c.writer.woken }.closeOutput

def call (c : Http2Connection) : PumpCall → Http2Connection
  | .append streamId bytes resumed => (c.append streamId bytes resumed).1
  | .appendChunks streamId chunks resumed => (c.appendChunks streamId chunks resumed).1
  | .reserveRead streamId maximum late => c.reserveRead streamId maximum late
  | .appendReserved streamId bytes permit resumed =>
    (c.appendReserved streamId bytes permit resumed).1
  | .release permit => c.release permit
  | .finish streamId trailers resumed => (c.finish streamId trailers resumed).1
  | .cancel streamId => c.cancel streamId
  | .cancelStream streamId => c.cancelStream streamId
  | .streamClose streamId code => c.streamClose streamId code
  | .submit streamId sendable => c.submit streamId sendable
  | .submitResponseHeaders streamId sendable => c.submitResponseHeaders streamId sendable
  | .control sendable => c.control sendable
  | .finishConnection => c.finishConnection
  | .close => c.close

end Http2Connection

end Hical.Http2
