import Hical.Message
import Hical.Socket
import Hical.Lib.Effect
import Hical.Picohttp.Request

namespace Hical
open Effect

/-- What a session can throw: a failed socket or file operation, another `std::exception`, or
something else. -/
inductive Exn where
  | system
  | std (what : Bytes)
  | other
  deriving DecidableEq, Repr

/-- What the surroundings decide: how many bytes the `k`-th write takes at once, which asynchronous
write fails and behind how many bytes, the files, the date and whether the server is draining. -/
structure World where
  writeSome : Nat → Nat
  writeFails : Nat → Option Nat
  fileOpens : Bytes → Bool
  fileRead : Bytes → Nat → Nat → Option Bytes
  cachedHttpDate : Nat → Bytes
  draining : Nat → Bool

/-- A call that must not see an incomplete body, with what had been read into the request before. -/
inductive Invocation where
  | handler (req : Request) (stored : Option Bytes)
  | useBody (stored : Option Bytes)
  deriving DecidableEq, Repr

def Invocation.stored : Invocation → Option Bytes
  | .handler _ b => b
  | .useBody b => b

/-- What has come in, and the locals of `handleSession` that say where in it the session is. The last
three fields are only observed: the body that the request under way has received, how often it was
fetched, and the calls made for the requests so far. -/
structure Incoming where
  inbox : List Bytes
  turn : Nat := 0
  pipelineSpill : Bytes := []
  readBuf : Bytes := []
  bufUsed : Nat := 0
  spillSrc : Nat := 0
  bodyRead : Bool := false
  stored : Option Bytes := none
  bodyReads : Nat := 0
  invoked : List Invocation := []

/-- What goes out, and the responses that are held back. The last two fields are only observed: what
each response serialises to on its own, and whether a read was ever started with responses held
back. -/
structure Outgoing where
  outbox : Bytes := []
  broken : Bool := false
  writes : Nat := 0
  responseBatch : Bytes := []
  log : List Bytes := []
  heldBack : Bool := false

/-- A connection between two awaits of `handleSession`. -/
structure Conn extends Incoming, Outgoing

section Socket
variable (w : World)

def tryOptimisticWrite (buf : Bytes) : Eff Conn Exn Nat :=
  Eff.of fun c =>
    let n := if c.broken then 0 else min (w.writeSome c.writes) buf.length
    (.ok n, { c with outbox := c.outbox ++ buf.take n, writes := c.writes + 1 })

/-- `boost::asio::async_write`: all of the buffer, or an error behind some of it; a stream that
failed once takes nothing more. -/
def asyncWrite (buf : Bytes) : Eff Conn Exn Unit :=
  Eff.of fun c =>
    if c.broken then (.error .system, { c with writes := c.writes + 1 })
    else match w.writeFails c.writes with
      | none => (.ok (), { c with outbox := c.outbox ++ buf, writes := c.writes + 1 })
      | some k => (.error .system,
          { c with outbox := c.outbox ++ buf.take k, broken := true, writes := c.writes + 1 })

/-- An optimistic write, continued by `writeRemaining` where it stopped. -/
def writeBuffer (buf : Bytes) : Eff Conn Exn Unit := do
  let sent ← tryOptimisticWrite w buf
  if sent = buf.length then pure ()
  else asyncWrite w (buf.drop sent)

/-- The same for a head and a body that stay apart in memory. -/
def writeBuffers (head body : Bytes) : Eff Conn Exn Unit := do
  let sent ← tryOptimisticWrite w (head ++ body)
  if sent = (head ++ body).length then pure ()
  else if sent < head.length then asyncWrite w (head.drop sent ++ body)
  else asyncWrite w (body.drop (sent - head.length))

def asyncReadSome (cap : Nat) : Eff Conn Exn Bytes :=
  Eff.of fun c =>
    let heldBack := c.heldBack || !c.responseBatch.isEmpty
    match readSome cap c.inbox with
    | none => (.error .system, { c with inbox := [], heldBack := heldBack })
    | some (got, inbox) => (.ok got, { c with inbox := inbox, heldBack := heldBack })

end Socket

section Responses
variable (w : World)

/-- `flushPendingResponses`. -/
def flushResponseBatch : Eff Conn Exn Unit := do
  let c ← get
  if c.responseBatch = [] then pure ()
  else
    writeBuffer w c.responseBatch
    modify fun c => { c with responseBatch := [] }

/-- Record what a response serialises to on its own. -/
def record (wire : Bytes) : Eff Conn Exn Unit :=
  modify fun c => { c with log := c.log ++ [wire] }

def rawWire (statusCode : Nat) (reason body : Bytes) : Bytes :=
  bytes "HTTP/1.1 " ++ decimal statusCode ++ [SP] ++ reason ++ bytes "\r\nContent-Length: " ++
    decimal body.length ++ bytes "\r\nConnection: close\r\n\r\n" ++ body

def sendRawResponse (statusCode : Nat) (reason body : Bytes) : Eff Conn Exn Unit := do
  record (rawWire statusCode reason body)
  writeBuffer w (rawWire statusCode reason body)

/-- What a response without a file serialises to on its own. -/
def responseWire (res : Response) (common : Bytes) (skipBody : Bool) : Bytes :=
  let res := res.preparePayload
  res.serializeHeadTo common ++
    if skipBody then []
    else match res.chunkedBody with
      | some cb => serializeChunkedBody cb
      | none => res.body

def writeResponse (res : Response) (common : Bytes) (skipBody : Bool) : Eff Conn Exn Unit := do
  record (responseWire res common skipBody)
  let res := res.preparePayload
  let head := res.serializeHeadTo common
  match res.chunkedBody with
  | some cb =>
    if skipBody then writeBuffer w head
    else if serializeChunkedBody cb = [] then writeBuffer w head
    else asyncWrite w (head ++ serializeChunkedBody cb)
  | none =>
    if skipBody ∨ res.body = [] then writeBuffer w head
    -- head and body fit the stack buffer together
    else if head.length + res.body.length ≤ 512 then writeBuffer w (head ++ res.body)
    else writeBuffers w head res.body

def appendResponseToBatch (res : Response) (common : Bytes) (skipBody : Bool) :
    Eff Conn Exn Unit := do
  record (responseWire res common skipBody)
  let res := res.preparePayload
  let head := res.serializeHeadTo common
  modify fun c => { c with
    responseBatch := c.responseBatch ++ (head ++ if skipBody then [] else res.body) }

def kChunkSize : Nat := 65536

def fileChunk (path : Bytes) (offset remaining : Nat) : Option Bytes :=
  (w.fileRead path offset (min kChunkSize remaining)).map (List.take (min kChunkSize remaining))

/-- The loop of `writeFileResponse`; no more rounds are needed than bytes are due. -/
def sendFile (path : Bytes) : Nat → Nat → Nat → Eff Conn Exn Unit
  | 0, _, _ => pure ()
  | rounds + 1, offset, remaining =>
    if remaining = 0 then pure ()
    else match fileChunk w path offset remaining with
      | none => throw .system
      | some chunk =>
        if chunk = [] then pure ()
        else do
          asyncWrite w chunk
          sendFile path rounds (offset + chunk.length) (remaining - chunk.length)

def fileBytes (path : Bytes) : Nat → Nat → Nat → Bytes
  | 0, _, _ => []
  | rounds + 1, offset, remaining =>
    if remaining = 0 then []
    else match fileChunk w path offset remaining with
      | none => []
      | some chunk =>
        if chunk = [] then []
        else chunk ++ fileBytes path rounds (offset + chunk.length) (remaining - chunk.length)

def fileWire (res : Response) (common : Bytes) (fb : FileBody) : Bytes :=
  if w.fileOpens fb.path then
    res.preparePayload.serializeHeadTo common ++ fileBytes w fb.path fb.length fb.offset fb.length
  else []

def writeFileResponse (res : Response) (common : Bytes) (fb : FileBody) : Eff Conn Exn Unit := do
  record (fileWire w res common fb)
  if w.fileOpens fb.path then
    asyncWrite w (res.preparePayload.serializeHeadTo common)
    sendFile w fb.path fb.length fb.offset fb.length
  else throw .system

end Responses

end Hical

namespace Hical
open Effect Parse

def kBufferSize : Nat := 8192

section Reading
variable (w : World)

/-- Send what is held back, answer with an error and give the connection up. -/
def refuse (statusCode : Nat) (reason body : Bytes) : Eff Conn Exn (Option α) := do
  flushResponseBatch w
  sendRawResponse w statusCode reason body
  pure none

def refuseTooLarge : Eff Conn Exn (Option α) :=
  refuse w 431 (bytes "Request Header Fields Too Large") (bytes "Request header too large")

def refuseMalformed : Eff Conn Exn (Option α) :=
  refuse w 400 (bytes "Bad Request") (bytes "Malformed HTTP request")

/-- Stage A once the bytes at hand are known to hold no complete head: make room, read, parse. The
first argument bounds the rounds, each of which reads at least one byte. -/
def readHeadLoop (maxHeaderSize : Nat) :
    Nat → Nat → Nat → Eff Conn Exn (Option (PhrRequest × Nat))
  | 0, _, _ => throw .system
  | rounds + 1, size, prevBufLen => do
    let c ← get
    if size ≤ c.readBuf.length ∧ maxHeaderSize ≤ size then refuseTooLarge w
    else
      let size := if size ≤ c.readBuf.length then size * 2 else size
      flushResponseBatch w
      let got ← asyncReadSome (size - c.readBuf.length)
      let buf := c.readBuf ++ got
      modify fun c => { c with readBuf := buf, bufUsed := buf.length }
      match phrParseRequest buf prevBufLen with
      | .done head rest =>
        if maxHeaderSize < buf.length - rest.length then refuseTooLarge w
        else pure (some (head, buf.length - rest.length))
      | .fail => refuseMalformed w
      | .more =>
        if maxHeaderSize < buf.length then refuseTooLarge w
        else readHeadLoop maxHeaderSize rounds size buf.length

/-- Stage A with the first bytes of a turn in the buffer. -/
def parseFirst (maxHeaderSize size : Nat) : Eff Conn Exn (Option (PhrRequest × Nat)) := do
  let c ← get
  match phrParseRequest c.readBuf 0 with
  | .done head rest => pure (some (head, c.readBuf.length - rest.length))
  | .fail => refuseMalformed w
  | .more => readHeadLoop w maxHeaderSize (c.inbox.flatten.length + 1) size c.readBuf.length

/-- Put the first bytes of a turn into the buffer: what the last turn left over, or else a small
read. The result is the size of the buffer. -/
def fillFirst : Eff Conn Exn Nat := do
  let c ← get
  if c.pipelineSpill = [] then
    flushResponseBatch w
    let got ← asyncReadSome 256
    modify fun c => { c with readBuf := got, bufUsed := got.length }
    pure kBufferSize
  else
    modify fun c => { c with
      readBuf := c.pipelineSpill, bufUsed := c.pipelineSpill.length, pipelineSpill := [] }
    pure (max c.pipelineSpill.length kBufferSize)

/-- Stage A: the parsed head and its length, or nothing when the connection was given up. -/
def readHead (maxHeaderSize : Nat) : Eff Conn Exn (Option (PhrRequest × Nat)) := do
  let size ← fillFirst w
  parseFirst w maxHeaderSize size

end Reading

section Scanning

/-- `std::from_chars` on the whole of a value. -/
def parseSize (value : Bytes) : Option Nat :=
  if value = [] ∨ value.any (fun b => b < 48 || 57 < b) then none
  else
    let n := value.foldl (fun n b => n * 10 + (b.toNat - 48)) 0
    if n < 2 ^ 64 then some n else none

/-- The token loop of `validateTransferEncoding`. -/
def validateCodings : Bool → List Bytes → HttpStatusCode
  | _, [] => .hBadRequest
  | unsupportedCoding, value :: rest =>
    let token := trimWith isBlank value
    let coding := token.takeWhile fun b => !(isBlank b || b == 59)
    if token = [] then .hBadRequest
    else if iequals coding (bytes "chunked") then
      if coding ≠ token ∨ rest ≠ [] then .hBadRequest
      else if unsupportedCoding then .hNotImplemented else .hOk
    else if rest = [] then .hBadRequest
    else validateCodings true rest

def validateTransferEncoding (value : Bytes) : HttpStatusCode :=
  validateCodings false (value.splitOn comma)

/-- What stage B collects from the header fields. -/
structure HeadScan where
  headers : Fields := []
  contentLength : Nat := 0
  hasContentLength : Bool := false
  isChunked : Bool := false
  hasTransferEncoding : Bool := false
  invalidFraming : Bool := false
  transferEncodingStatus : HttpStatusCode := .hOk
  connectionClose : Bool := false
  hasConnectionHeader : Bool := false
  upgradePreScanned : Option Bool := none
  expectContinue : Bool := false
  deriving DecidableEq, Repr

namespace HeadScan

def contentLengthField (s : HeadScan) (value : Bytes) : HeadScan :=
  let parsedLength := (parseSize value).getD 0
  { s with
    invalidFraming := s.invalidFraming || (parseSize value).isNone ||
      (s.hasContentLength && parsedLength != s.contentLength)
    hasContentLength := true
    contentLength := parsedLength }

def connectionField (s : HeadScan) (value : Bytes) : HeadScan :=
  { s with
    upgradePreScanned :=
      if s.hasConnectionHeader then s.upgradePreScanned
      else some (connectionHasUpgradeToken value)
    hasConnectionHeader := true
    connectionClose := iequals value (bytes "close") }

def transferEncodingField (s : HeadScan) (value : Bytes) : HeadScan :=
  { s with
    invalidFraming := s.invalidFraming || s.hasTransferEncoding
    hasTransferEncoding := true
    transferEncodingStatus := validateTransferEncoding value
    isChunked := validateTransferEncoding value == .hOk }

/-- One header field; the checks on length and first letter only narrow the comparisons. -/
def add (s : HeadScan) (h : PhrHeader) : HeadScan :=
  match h.name with
  | none => { s with invalidFraming := true }
  | some name =>
    let s := { s with headers := s.headers ++ [⟨name, h.value⟩] }
    if iequals name (bytes "Content-Length") then s.contentLengthField h.value
    else if iequals name (bytes "Connection") then s.connectionField h.value
    else if iequals name (bytes "Expect") then
      { s with expectContinue := iequals h.value (bytes "100-continue") }
    else if iequals name (bytes "Transfer-Encoding") then s.transferEncodingField h.value
    else s

def badFraming (s : HeadScan) (minorVersion : Nat) : Bool :=
  s.invalidFraming || s.transferEncodingStatus == .hBadRequest ||
    (s.hasTransferEncoding && (s.hasContentLength || minorVersion == 0))

def keepAlive (s : HeadScan) (minorVersion : Nat) : Bool :=
  if s.hasConnectionHeader then !s.connectionClose else 1 ≤ minorVersion

def hasRequestBody (s : HeadScan) : Bool :=
  (s.hasContentLength && 0 < s.contentLength) || s.isChunked

end HeadScan

def scanHead (head : PhrRequest) : HeadScan := head.headers.foldl HeadScan.add {}

/-- Stage B: the request that routing and middlewares see, with no body yet. -/
def buildRequest (head : PhrRequest) : Request where
  method := methodFromStringView head.method
  target := head.path
  httpVersionMinor := head.minorVersion
  headers := (scanHead head).headers
  body := []
  keepAlive := (scanHead head).keepAlive head.minorVersion
  expectContinue := (scanHead head).expectContinue
  upgradePreScanned := (scanHead head).upgradePreScanned
  params := []

end Scanning

end Hical
