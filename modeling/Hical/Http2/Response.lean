import Hical.Http2.Headers
import Hical.Message

namespace Hical.Http2

/-- `FileBody`. -/
structure FileRange where
  path : Bytes
  offset : Int
  length : Int
  deriving DecidableEq

/-- `ChunkedBody`. -/
structure Chunks where
  chunks : List Bytes := []
  trailers : Fields := []
  finished : Bool := false
  deriving DecidableEq

/-- What `submit` reads of a `NativeResponse`. -/
structure NativeResponse where
  status : Nat := 200
  headers : Fields := []
  body : Bytes := []
  fileBody : Option FileRange := none
  chunkedBody : Option Chunks := none
  trailers : Fields := []
  deriving DecidableEq

def kMinimumHttpStatus : Nat := 100
def kMinimumFinalStatus : Nat := 200
def kMaximumHttpStatus : Nat := 599
def kMaxProducerChunks : Nat := 64

/-- The largest `size_t`. -/
def kMaxSize : Nat := 2 ^ 64 - 1

def responseError (streamId : Int) (message : String) (resource : Bool) : NetworkError :=
  { code := if resource then .hResourceLimitExceeded else .hInvalidConfiguration
    message := message
    http2 := some { code := .hInternalError, streamId := streamId } }

/-- `HttpResponse::serverError`. -/
def serverError : NativeResponse :=
  { status := 500
    headers := [⟨bytes "Content-Type", bytes "text/plain"⟩,
      ⟨bytes "Content-Length", bytes "21"⟩, ⟨bytes "X-Content-Type-Options", bytes "nosniff"⟩]
    body := bytes "Internal Server Error" }

def appendHeader (headers : Http2Headers) (field : Field) (streamId : Int) (options : Http2Options) :
    Except NetworkError Http2Headers :=
  if options.maxHeaderFields.toNat ≤ headers.decodedFields ∨
      options.maxHeaderBytes.toNat - headers.decodedBytes <
        Http2Headers.fieldSize field.name field.value then
    throw (responseError streamId "HTTP/2 响应头超过字段数量或 header-list 字节预算" true)
  else headers.append (field.name.map toLower) field.value

/-- A field that `prepareHeaders` leaves out: the mark of HTTP/1 on a chunked body, or a length. -/
def skipped (response : NativeResponse) (field : Field) : Bool :=
  (response.chunkedBody.isSome && iequals field.name (bytes "transfer-encoding") &&
    iequals field.value (bytes "chunked")) ||
  (decide (response.status ≠ 304) && iequals field.name (bytes "content-length"))

def appendHeaders (response : NativeResponse) (streamId : Int) (options : Http2Options) :
    Http2Headers → Fields → Except NetworkError Http2Headers
  | headers, [] => pure headers
  | headers, field :: fields =>
    if skipped response field then appendHeaders response streamId options headers fields
    else do
      let headers ← appendHeader headers field streamId options
      appendHeaders response streamId options headers fields

def prepareHeaders (headers : Http2Headers) (response : NativeResponse) (streamId : Int)
    (options : Http2Options) (payloadBytes : Nat) : Except NetworkError Http2Headers := do
  let headers ← headers.append (bytes ":status") (decimal response.status)
  let headers ← appendHeaders response streamId options headers response.headers
  let headers ← if response.status ≠ 204 ∧ response.status ≠ 304 then
      headers.append (bytes "content-length") (decimal payloadBytes)
    else pure headers
  headers.complete

/-- The total length of the chunks, which must be a `size_t`. -/
def chunksLength : Nat → List Bytes → Option Nat
  | length, [] => some length
  | length, chunk :: chunks =>
    if chunk.length > kMaxSize - length then none else chunksLength (length + chunk.length) chunks

def payloadLength (response : NativeResponse) (streamId : Int) : Except NetworkError Nat :=
  match response.fileBody with
  | some file =>
    if file.offset < 0 ∨ file.length < 0 ∨ file.length > 2 ^ 63 - 1 - file.offset then
      throw (responseError streamId "HTTP/2 文件范围无效或长度溢出" false)
    else pure file.length.toNat
  | none =>
    match response.chunkedBody with
    | none => pure response.body.length
    | some body =>
      match chunksLength 0 body.chunks with
      | none => throw (responseError streamId "HTTP/2 收集式 body 的总长度溢出" true)
      | some length => pure length

def appendTrailers (streamId : Int) (options : Http2Options) :
    Http2Headers → Fields → Except NetworkError Http2Headers
  | trailers, [] => pure trailers
  | trailers, field :: fields => do
    let trailers ← appendHeader trailers field streamId options
    appendTrailers streamId options trailers fields

def responseTrailers (response : NativeResponse) : Fields :=
  response.trailers ++ (response.chunkedBody.map Chunks.trailers).getD []

def prepareTrailers (trailers : Http2Headers) (response : NativeResponse) (streamId : Int)
    (options : Http2Options) : Except NetworkError Http2Headers := do
  let trailers ← appendTrailers streamId options trailers (responseTrailers response)
  trailers.complete

def optionalTrailers (response : NativeResponse) (streamId : Int) (options : Http2Options) :
    Except NetworkError (Option Http2Headers) :=
  if responseTrailers response = [] then pure none
  else (prepareTrailers (.new .hTrailers streamId options) response streamId options).map some

def normalizeResponse (streamId : Int) (response : NativeResponse) (options : Http2Options) :
    Except NetworkError NativeResponse :=
  match options.validationError with
  | some error => throw (responseError streamId error false)
  | none =>
    if streamId ≤ 0 ∨ response.status < kMinimumHttpStatus ∨ kMaximumHttpStatus < response.status then
      throw (responseError streamId "HTTP/2 响应流 ID 或 HTTP 状态码无效" false)
    else
      let response := if response.status < kMinimumFinalStatus then serverError else response
      if response.fileBody.isSome ∧ response.chunkedBody.isSome then
        throw (responseError streamId "HTTP/2 文件体和收集式 body 不能同时存在" false)
      else if response.chunkedBody.any (!·.finished) then
        throw (responseError streamId
          "HTTP/2 收集式 ChunkedBody 必须先调用 end，不能等待后续生产" false)
      else pure response

/-- `Http2Output::Producer`, as far as a response fills it. -/
structure Producer where
  /-- All that was queued, also what is read since. -/
  chunks : List Bytes := []
  trailerBlock : Option Fields := none
  finished : Bool := false
  cancelled : Bool := false
  deriving DecidableEq

/-- What the output, with its codec and its budgets, answers to the calls of `submit`, and whether
there is memory. -/
structure Answers where
  /-- Before anything is submitted. -/
  allocates : Bool := true
  submitHeaders : Option NetworkError := none
  submit : Option NetworkError := none
  append : Option NetworkError := none
  finish : Option NetworkError := none
  /-- `tryAcquireApplicationTask`. -/
  task : Bool := true
  /-- In `Http2FileBody::create`. -/
  allocatesFile : Bool := true
  /-- The options of the output. -/
  options : Http2Options := {}

def cancelledError (streamId : Int) : NetworkError :=
  { code := .hOperationAborted, message := "HTTP/2 输出已停止"
    http2 := some { code := .hCancel, streamId := streamId } }

def resourceError (streamId : Int) : NetworkError :=
  { code := .hResourceLimitExceeded, message := "HTTP/2 发送队列额度不足"
    http2 := some { code := .hEnhanceYourCalm, streamId := streamId } }

/-- The error behind `std::bad_alloc`. -/
def allocationError (streamId : Int) : NetworkError :=
  { code := .hResourceLimitExceeded, http2 := some { code := .hInternalError, streamId := streamId } }

namespace Producer

/-- `canProduce`. -/
def blocked (p : Producer) (streamId : Int) : Option NetworkError :=
  if p.cancelled then some (cancelledError streamId)
  else if p.finished then
    some { code := .hInvalidConfiguration, message := "HTTP/2 DATA 生产者已经结束" }
  else none

/-- What `appendOwned` and `appendChunks` do with their bytes. -/
def push (p : Producer) (streamId : Int) (bytes : Bytes) (answer : Option NetworkError) :
    Except NetworkError Producer :=
  if bytes = [] then pure p
  else if kMaxProducerChunks ≤ p.chunks.length then throw (resourceError streamId)
  else match answer with
    | some error => throw error
    | none => pure { p with chunks := p.chunks ++ [bytes] }

def appendOwned (p : Producer) (streamId : Int) (bytes : Bytes) (answer : Option NetworkError) :
    Except NetworkError Producer :=
  match p.blocked streamId with
  | some error => throw error
  | none => p.push streamId bytes answer

def appendChunks (p : Producer) (streamId : Int) (chunks : List Bytes)
    (answer : Option NetworkError) : Except NetworkError Producer :=
  match p.blocked streamId with
  | some error => throw error
  | none =>
    match chunksLength 0 chunks with
    | none => throw (resourceError streamId)
    | some _ => p.push streamId chunks.flatten answer

def trailersFit (limit : Nat) : Nat → Fields → Bool
  | _, [] => true
  | trailerBytes, field :: fields =>
    let size := Http2Headers.fieldSize field.name field.value
    decide (size ≤ limit) && decide (size ≤ limit - trailerBytes) &&
      trailersFit limit (trailerBytes + size) fields

def appendAll : Http2Headers → Fields → Except NetworkError Http2Headers
  | block, [] => pure block
  | block, field :: fields => do
    let block ← block.append field.name field.value
    appendAll block fields

def trailersBlock (streamId : Int) (options : Http2Options) (trailers : Fields) :
    Except NetworkError Http2Headers := do
  let block ← appendAll (.new .hTrailers streamId options) trailers
  block.complete

/-- The block that `finish` keeps, if there are trailers. -/
def keptBlock (streamId : Int) (options : Http2Options) (trailers : Fields) :
    Except NetworkError (Option Fields) :=
  if trailers = [] then pure none
  else (trailersBlock streamId options trailers).map fun block => some block.fields

def finish (p : Producer) (streamId : Int) (trailers : Fields) (options : Http2Options)
    (answer : Option NetworkError) : Except NetworkError Producer :=
  match p.blocked streamId with
  | some error => throw error
  | none =>
    if trailersFit options.maxHeaderBytes.toNat 0 trailers = false then
      throw (resourceError streamId)
    else do
      let trailerBlock ← keptBlock streamId options trailers
      match answer with
      | some error => throw error
      | none => return { p with trailerBlock := trailerBlock, finished := true }

def cancel (p : Producer) : Producer :=
  { p with chunks := [], trailerBlock := none, cancelled := true }

end Producer

/-- `Http2FileBody`, the job that queues the bytes of a file and then the trailers. -/
structure FileJob where
  file : FileRange
  trailers : Option Fields
  deriving DecidableEq

/-- `Http2FileBody::create`. -/
def createFile (streamId : Int) (file : FileRange) (options : Http2Options) (trailers : Fields)
    (task : Bool) : Option FileJob :=
  if streamId ≤ 0 ∨ file.offset < 0 ∨ file.length < 0 ∨ file.length > 2 ^ 63 - 1 - file.offset then
    none
  else if !task then none
  else if trailers = [] then some { file := file, trailers := none }
  else match Producer.trailersBlock streamId options trailers with
    | .ok block => some { file := file, trailers := some block.fields }
    | .error _ => none

/-- What one turn of the loop of `produce` meets. -/
structure FileTurn where
  /-- The error of `reserveRead` or of the file, or that of a stop meanwhile. -/
  failed : Option NetworkError := none
  /-- The size of the permit. -/
  permit : Nat
  /-- How much of it the file gives. -/
  count : Nat
  /-- The answer of the output to the bytes. -/
  append : Option NetworkError := none

def fileError (streamId : Int) : NetworkError :=
  { code := .hHttp2StreamError, http2 := some { code := .hInternalError, streamId := streamId } }

/-- What `read` gives of a file with this content. -/
def readSome (content : Bytes) (offset size count : Nat) : Bytes :=
  (content.drop offset).take (min size count)

namespace Producer

def appendReserved (p : Producer) (streamId : Int) (bytes : Bytes) (answer : Option NetworkError) :
    Except NetworkError Producer :=
  match p.blocked streamId with
  | some error => throw error
  | none =>
    match answer with
    | some error => throw error
    | none => pure { p with chunks := p.chunks ++ [bytes] }

end Producer

namespace FileJob

/-- `produce`: the error it ends with, if any, and the producer; `none` while it is waiting. -/
def produce (job : FileJob) (streamId : Int) (options : Http2Options) (content : Bytes)
    (finish : Option NetworkError) (p : Producer) (offset remaining : Nat) :
    List FileTurn → Option (Option NetworkError × Producer)
  | [] =>
    if remaining = 0 then
      match p.finish streamId (job.trailers.getD []) options finish with
      | .error error => some (some error, p)
      | .ok p => some (none, p)
    else none
  | turn :: turns =>
    if remaining = 0 then
      match p.finish streamId (job.trailers.getD []) options finish with
      | .error error => some (some error, p)
      | .ok p => some (none, p)
    else
      match turn.failed with
      | some error => some (some error, p)
      | none =>
        let size := min turn.permit (min options.maxFilePrefetchBytes.toNat remaining)
        let read := readSome content offset size turn.count
        if read = [] then some (some (fileError streamId), p)
        else
          match p.appendReserved streamId read turn.append with
          | .error error => some (some error, p)
          | .ok p => produce job streamId options content finish p (offset + read.length)
              (remaining - read.length) turns

def run (job : FileJob) (streamId : Int) (options : Http2Options) (content : Bytes)
    (finish : Option NetworkError) (p : Producer) (turns : List FileTurn) :
    Option (Option NetworkError × Producer) :=
  (job.produce streamId options content finish p job.file.offset.toNat job.file.length.toNat turns).map
    fun (error, p) => (error, if error.isSome then p.cancel else p)

end FileJob

/-- `Http2Response::Result`, and what the output got. -/
structure SubmitResult where
  error : Option NetworkError := none
  /-- `result.producer`. -/
  producer : Option Producer := none
  file : Option FileJob := none
  /-- Not in the code: the header list that the output took, and whether it ends the stream. -/
  submitted : Option (Fields × Bool) := none
  /-- Not in the code: the producer that the output opened. -/
  opened : Option Producer := none
  deriving DecidableEq

def cancelFailed (result : SubmitResult) : SubmitResult :=
  { result with producer := none, opened := result.opened.map Producer.cancel }

def SubmitResult.keep (result : SubmitResult) (p : Producer) : SubmitResult :=
  { result with producer := some p, opened := some p }

def appendBody (p : Producer) (streamId : Int) (response : NativeResponse) (answers : Answers) :
    Except NetworkError Producer :=
  match response.chunkedBody with
  | some body => p.appendChunks streamId body.chunks answers.append
  | none => p.appendOwned streamId response.body answers.append

def queueBody (result : SubmitResult) (p : Producer) (streamId : Int) (response : NativeResponse)
    (trailers : Fields) (answers : Answers) : SubmitResult :=
  match appendBody p streamId response answers with
  | .error error => cancelFailed { result.keep p with error := some error }
  | .ok p =>
    match p.finish streamId trailers answers.options answers.finish with
    | .error error => cancelFailed { result.keep p with error := some error }
    | .ok p => result.keep p

/-- What `submit` does with a file body. -/
def queueFile (result : SubmitResult) (file : FileRange) (streamId : Int) (options : Http2Options)
    (trailers : Fields) (answers : Answers) : SubmitResult :=
  if !answers.allocatesFile then
    cancelFailed { result.keep {} with error := some (allocationError streamId) }
  else
    match createFile streamId file options trailers answers.task with
    | some job => { result.keep {} with file := some job }
    | none => cancelFailed { result.keep {} with
        error := some (responseError streamId "HTTP/2 文件任务超过连接或服务配额" true) }

/-- `fields`, the array of the header list. -/
def headerList (response : NativeResponse) (headers : Http2Headers) : Fields :=
  ⟨bytes ":status", decimal response.status⟩ :: headers.fields

def bodyForbidden (requestMethod : HttpMethod) (response : NativeResponse) : Bool :=
  decide (requestMethod = .hHead) || decide (response.status = 204) || decide (response.status = 304)

/-- What `submit` does once the header list and the trailers are prepared. -/
def submitPrepared (streamId : Int) (requestMethod : HttpMethod) (response : NativeResponse)
    (options : Http2Options) (answers : Answers) (payloadBytes : Nat) (headers : Http2Headers)
    (trailers : Option Http2Headers) : SubmitResult :=
  let fields := headerList response headers
  let trailerFields := (trailers.map Http2Headers.fields).getD []
  if bodyForbidden requestMethod response ∨ payloadBytes = 0 ∧ trailers.isNone then
    match answers.submitHeaders with
    | some error => { error := some error }
    | none => { submitted := some (fields, true) }
  else
    match answers.submit with
    | some error => { error := some error }
    | none =>
      let result : SubmitResult := { submitted := some (fields, false) }
      match response.fileBody with
      | some file => queueFile result file streamId options trailerFields answers
      | none => queueBody result {} streamId response trailerFields answers

/-- `Http2Response::submit`. -/
def submit (streamId : Int) (requestMethod : HttpMethod) (response : NativeResponse)
    (options : Http2Options) (answers : Answers) : SubmitResult :=
  let prepared : Except NetworkError SubmitResult := do
    let response ← normalizeResponse streamId response options
    let payloadBytes ← payloadLength response streamId
    let headers ← prepareHeaders (.new .hResponse streamId options) response streamId options payloadBytes
    let trailers ← optionalTrailers response streamId options
    if answers.allocates then
      return submitPrepared streamId requestMethod response options answers payloadBytes headers trailers
    else throw (allocationError streamId)
  match prepared with
  | .ok result => result
  | .error error => { error := some error }

end Hical.Http2
