import Hical.Http2.Producers

namespace Hical.Http2

/-- `Http2Codec::DataRead`, with the octets that the buffer was filled with. -/
structure DataRead where
  bytes : Bytes := []
  eof : Bool := false
  deferred : Bool := false
  error : Option NetworkError := none

/-- What the event loop runs on a connection. -/
inductive PumpStep where
  /-- The writer starts, or goes on behind its wait. -/
  | writer (answer : SendAnswer)
  /-- `async_write_some` wrote so many octets, none if it failed. `onWritten` is what the callback
  does, and the answer is for the next batch. -/
  | written (count : Nat) (onWritten : List PumpCall) (answer : SendAnswer)
  /-- `async_read_some` gave octets; `during` is what the callbacks of `memRecv` do. -/
  | received (during : List PumpCall) (library : Library) (failed : Bool)
  /-- A waiting `reserveRead` goes on, at its deadline or because its timer was cancelled. -/
  | reader (i : Nat) (late : Bool)
  /-- The application, a session or another deadline calls in. -/
  | call (c : PumpCall)

namespace Http2Connection

def readCount (c : Http2Connection) (p : DataProducer) (chunk : Bytes) (length : Nat) : Nat :=
  let batchLimit := c.options.maxOutputBatchBytes.toNat
  let quantum := if kFrameHeaderBytes < batchLimit then batchLimit - kFrameHeaderBytes else 1
  min (min length (wireCapacity c.options - kFrameHeaderBytes))
    (min quantum (chunk.length - p.frontOffset))

/-- What `read` does for the stream that holds the credit. -/
def readCredited (c : Http2Connection) (streamId : Int) (p : DataProducer) (length : Nat) :
    Http2Connection × DataRead :=
  let c := { c with readCredit := false, lastReadStream := streamId }
  let p := { p with readStarted := true }
  match hp : p.chunks with
  | [] =>
    if hf : p.finished = true then
      (c.setSource streamId { p with eofRead := true, drained := fun _ => ⟨hf, hp⟩ }, { eof := true })
    else (c, {})
  | chunk :: chunks =>
    if wireCapacity c.options ≤ kFrameHeaderBytes ∨ length = 0 then
      (c.setSource streamId p, { error := some (resourceError streamId) })
    else
      let count := c.readCount p chunk length
      let bytes := (chunk.drop p.frontOffset).take count
      if p.frontOffset + count = chunk.length then
        let eof := p.finished && chunks.isEmpty
        let left :=
          { p with
            chunks := chunks
            frontOffset := 0
            amount := p.amount - chunk.length
            eofRead := eof
            drained := fun he => by
              rw [Bool.and_eq_true, List.isEmpty_iff] at he
              exact he
            emptied := fun hc => absurd (hp.symm.trans (p.emptied hc)) (List.cons_ne_nil _ _) }
        ((c.replace streamId p left).notifyReaders, { bytes, eof })
      else
        (c.setSource streamId
          { p with frontOffset := p.frontOffset + count, eofRead := false, drained := nofun },
          { bytes })

/-- `Producer::read`, with a buffer of this length. -/
def read (c : Http2Connection) (streamId : Int) (length : Nat) : Http2Connection × DataRead :=
  match c.source streamId with
  | none => (c, { error := some (cancelledError streamId) })
  | some p =>
    if c.output.closed ∨ p.cancelled then (c, { error := some (cancelledError streamId) })
    else if (p.chunks = [] ∧ p.finished = false) ∨ c.selectedStream ≠ streamId ∨
        c.readCredit = false then
      (c.setSource streamId { p with deferred := true }, { deferred := true })
    else c.readCredited streamId p length

def mayOpenStream (c : Http2Connection) : Bool :=
  c.role != .hClient ||
    decide (c.library.activeLocalStreamCount < c.library.peerMaxConcurrentStreams)

/-- `Http2Output::Impl::ready`. -/
def isReady (c : Http2Connection) (streamId : Int) (p : DataProducer) : Bool :=
  if p.cancelled || p.eofRead || (p.chunks.isEmpty && !p.finished) then false
  else
    let window := c.library.streamWindow streamId
    let unknown := decide (window = -1) && !p.readStarted
    if unknown && !c.mayOpenStream then false
    else p.chunks.isEmpty || (decide (0 < c.library.connectionWindow) && (decide (0 < window) || unknown))

/-- The producer is drained and its end was not submitted, unless its request is not open yet. -/
def endsByHeaders (c : Http2Connection) (streamId : Int) (p : DataProducer) : Bool :=
  !p.cancelled && p.finished && p.chunks.isEmpty && !p.eofRead &&
    !(decide (c.role = .hClient) && decide (c.library.streamWindow streamId = -1) && !p.readStarted)

/-- A turn of the loop of `prepareFinalHeaders`. -/
def prepareFinal (c : Http2Connection) (streamId : Int) : Http2Connection :=
  match c.source streamId with
  | none => c
  | some p =>
    if h : c.endsByHeaders streamId p = true then
      let ended :=
        { p with
          eofRead := true
          drained := fun _ => by
            simp only [endsByHeaders, Bool.and_eq_true, List.isEmpty_iff] at h
            exact ⟨h.1.1.1.2, h.1.1.2⟩ }
      ((c.setSource streamId ended).queue c.output (c.library.sendable + 1)).deselect streamId
    else c

/-- The loop, where `answer` is the error that `submitTrailers` gives if it is called. -/
def prepareFinalHeaders (c : Http2Connection) (answer : Option NetworkError) :
    Except NetworkError Http2Connection :=
  match answer with
  | none => .ok (c.producers.keys.foldl prepareFinal c)
  | some error =>
    if c.producers.keys.any fun id => (c.source id).any (c.endsByHeaders id) then .error error
    else .ok c

def readyStreams (c : Http2Connection) : List Int :=
  c.producers.keys.filter fun id => (c.source id).any (c.isReady id)

/-- The first stream behind the one that was read last, else the first one. -/
def nextStream (c : Http2Connection) : Option Int :=
  (c.readyStreams.filter fun id => decide (c.lastReadStream < id)).min? <|> c.readyStreams.min?

def granted (c : Http2Connection) (streamId : Int) (p : DataProducer) : Http2Connection :=
  { c.setSource streamId { p with deferred := false } with
    selectedStream := streamId, readCredit := true }

/-- It is taken up again before, if its last read was deferred. -/
def grant (c : Http2Connection) (streamId : Int) (resumed : Option NetworkError) :
    Except NetworkError Http2Connection :=
  match c.source streamId with
  | none => .ok c
  | some p =>
    match p.deferred, resumed with
    | true, some error => .error error
    | _, _ => .ok (c.granted streamId p)

def selectProducer (c : Http2Connection) (resumed : Option NetworkError) :
    Except NetworkError Http2Connection :=
  if c.readCredit && (c.source c.selectedStream).any (c.isReady c.selectedStream) then .ok c
  else
    let c := { c with readCredit := false, selectedStream := 0 }
    match c.nextStream with
    | none => .ok c
    | some streamId => c.grant streamId resumed

def callback (c : Http2Connection) : SendCallback → Http2Connection
  | .read streamId length => (c.read streamId length).1
  | .call call => c.call call

/-- `Http2Codec::memSend`. -/
def memSend (c : Http2Connection) (answer : SendAnswer) :
    Http2Connection × Except NetworkError Bytes :=
  let limit := c.options.maxOutputBatchBytes.toNat
  let storageLimit := min (wireCapacity c.options) c.options.maxConnectionSendBytes.toNat
  if limit = 0 then (c, .ok [])
  else if storageLimit < c.pendingOutput.length then
    (c, .error ⟨.hResourceLimitExceeded, "HTTP/2 余留输出超过连接待发预算", none⟩)
  else if c.pendingOutput ≠ [] then
    ({ c with pendingOutput := c.pendingOutput.drop limit }, .ok (c.pendingOutput.take limit))
  else
    let c := { answer.callbacks.foldl callback c with library := answer.library }
    match answer.bytes with
    | .error error => (c, .error error)
    | .ok bytes =>
      if storageLimit < bytes.length then
        (c, .error ⟨.hResourceLimitExceeded, "HTTP/2 协议输出超过连接待发预算", none⟩)
      else ({ c with pendingOutput := bytes.drop limit }, .ok (bytes.take limit))

/-- What `nextBatch` does before it asks for output. -/
def prepare (c : Http2Connection) (answer : SendAnswer) : Except NetworkError Http2Connection :=
  match c.notifyReaders.prepareFinalHeaders answer.submitTrailers with
  | .error error => .error error
  | .ok prepared => prepared.selectProducer answer.resumed

/-- An error closes the output, so that it does not matter what was done before. -/
def nextBatch (c : Http2Connection) (answer : SendAnswer) :
    Http2Connection × Except NetworkError Bytes :=
  if c.output.closed then (c, .error (cancelledError 0))
  else if c.output.offset < c.output.batch.length then (c, .ok c.output.remaining)
  else
    match c.prepare answer with
    | .error error => (c.closeOutput, .error error)
    | .ok prepared =>
      match prepared.memSend answer with
      | (sent, .error error) => (sent.closeOutput, .error error)
      | (sent, .ok bytes) =>
        ({ sent with output := { sent.output with batch := bytes, offset := 0,
                                                  offset_le := Output.front_le bytes } }, .ok bytes)

def wantRead (c : Http2Connection) : Bool := !c.output.closed && c.library.wantRead

def wantWrite (c : Http2Connection) : Bool :=
  !c.output.closed && (!c.pendingOutput.isEmpty || c.library.wantWrite)

def hasPendingOutput (c : Http2Connection) : Bool :=
  !c.output.closed && (decide (c.output.pendingEnds ≠ ∅) ||
    decide (c.output.offset < c.output.batch.length) || c.wantWrite)

/-- `writeLoop`, up to where it waits for `writerWake_` or for the socket. -/
def writeLoop (c : Http2Connection) (answer : SendAnswer) : Http2Connection :=
  if c.output.closed then { c with writer := .done }
  else
    match { c with writer := .running }.nextBatch answer with
    | (c, .error _) => { c.close with writer := .done }
    | (c, .ok bytes) =>
      if bytes = [] then
        if (c.finishing && !c.hasPendingOutput) || !c.wantRead then { c.close with writer := .done }
        else { c with writer := .waiting false }
      else if c.output.closed then { c with writer := .done }
      else { c with writer := .writing }

/-- What `writeBatch` does with the octets that were written. -/
def acknowledge (c : Http2Connection) (count : Nat) (onWritten : List PumpCall) : Http2Connection :=
  onWritten.foldl call { c with output := (c.output.acknowledge count).1 }.notifyReaders

/-- `writeBatch` behind `async_write_some`. -/
def written (c : Http2Connection) (count : Nat) (onWritten : List PumpCall) (answer : SendAnswer) :
    Http2Connection :=
  if count = 0 ∨ (c.output.acknowledge count).2.error.isError then { c.close with writer := .done }
  else
    let acknowledged := c.acknowledge count onWritten
    if c.output.remaining.length = count ∨ acknowledged.output.closed then
      acknowledged.writeLoop answer
    else acknowledged

/-- `readLoop` behind `async_read_some`. -/
def received (c : Http2Connection) (during : List PumpCall) (library : Library) (failed : Bool) :
    Http2Connection :=
  if c.output.closed then c
  else
    let c := { during.foldl call c with library := library }
    if failed then c.close else c.wake

def resumeReader (c : Http2Connection) (i : Nat) (late : Bool) : Http2Connection :=
  match c.readers[i]? with
  | none => c
  | some r =>
    if r.notified ∨ late then
      { c with readers := c.readers.eraseIdx i }.reserve r.streamId r.maximum late
    else c

def step (c : Http2Connection) : PumpStep → Http2Connection
  | .writer answer =>
    if c.writer = .running ∨ c.writer = .waiting true then c.writeLoop answer else c
  | .written count onWritten answer =>
    if c.writer = .writing then c.written count onWritten answer else c
  | .received during library failed => c.received during library failed
  | .reader i late => c.resumeReader i late
  | .call call => c.call call

def run (c : Http2Connection) (steps : List PumpStep) : Http2Connection := steps.foldl step c

/-- A new connection, whose options hold the wire batch besides what the streams send. -/
def start (role : Role) (options : Http2Options) (valid : options.validationError = none)
    (library : Library) : Http2Connection :=
  { role, options, valid, library, output := .start role, sendBytes := wireCapacity options }

end Http2Connection

end Hical.Http2
