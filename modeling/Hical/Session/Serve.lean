import Hical.Picohttp.Chunked
import Hical.Session.Head
import Hical.Middleware.Chain

namespace Hical
open Effect

/-- What user code sees: its own state and the request. -/
abbrev View (υ : Type) := υ × Request

/-- The state of a session while a request is served. -/
abbrev Sess (υ : Type) := View υ × Conn

/-- Where the head ends and how the body behind it is framed. -/
structure Framing where
  headerBytes : Nat
  hasContentLength : Bool
  contentLength : Nat
  isChunked : Bool
  minorVersion : Nat
  deriving DecidableEq, Repr

section Body
variable {υ : Type} (w : World) (maxBodySize : Nat) (f : Framing)

def onConn (g : Conn → Conn) : Eff (Sess υ) Exn Unit :=
  modify fun s => (s.1, g s.2)

def onBody (g : Bytes → Bytes) : Eff (Sess υ) Exn Unit :=
  modify fun s => ((s.1.1, { s.1.2 with body := g s.1.2.body }), s.2)

/-- The error response of the body stage, marked as the last one of its connection. -/
def bodyError (code : HttpStatusCode) (msg : Bytes) : Response :=
  { Response.plainText code msg with keepAlive := false }

def bodyTooLarge : Response := bodyError .hPayloadTooLarge (bytes "Request body too large")

def malformedChunked : Response := bodyError .hBadRequest (bytes "Malformed chunked encoding")

def k100 : Bytes := bytes "HTTP/1.1 100 Continue\r\n\r\n"

/-- `Expect: 100-continue`: refuse a body that is announced too large, or ask for it. -/
def answerExpect : Eff (Sess υ) Exn (Option Response) := do
  let s ← get
  if s.1.2.expectContinue ∧ (f.hasContentLength ∨ f.isChunked) ∧ 1 ≤ f.minorVersion then
    if f.hasContentLength ∧ maxBodySize < f.contentLength then pure (some bodyTooLarge)
    else
      (flushResponseBatch w).right
      (record k100).right
      (asyncWrite w k100).right
      pure none
  else pure none

def overwrite (offset : Nat) (got body : Bytes) : Bytes :=
  body.take offset ++ (got ++ body.drop (offset + got.length))

/-- `std::string::resize`. -/
def resize (n : Nat) (body : Bytes) : Bytes := (body ++ List.replicate n 0).take n

/-- The reads straight into the body; no more rounds are needed than bytes are missing. -/
def fillBody : Nat → Nat → Nat → Eff (Sess υ) Exn Unit
  | 0, _, _ => pure ()
  | rounds + 1, offset, bodyRemaining =>
    if bodyRemaining = 0 then pure ()
    else do
      let got ← (asyncReadSome bodyRemaining).right
      onBody (overwrite offset got)
      fillBody rounds (offset + got.length) (bodyRemaining - got.length)

/-- How much of the body stands in the buffer behind the head. -/
def bodyCopied (c : Conn) : Nat := min (c.readBuf.length - f.headerBytes) f.contentLength

/-- Copy what the buffer holds of the body, and note what stands behind it. -/
def copyBuffered (s : Sess υ) : Sess υ :=
  let copied := bodyCopied f s.2
  let tailLen := s.2.readBuf.length - f.headerBytes - copied
  let body := overwrite 0 ((s.2.readBuf.drop f.headerBytes).take copied)
    (resize f.contentLength s.1.2.body)
  ((s.1.1, { s.1.2 with body := body }), { s.2 with
    spillSrc := if 0 < tailLen then f.headerBytes + copied else s.2.spillSrc
    bufUsed := tailLen })

def storeBody (s : Sess υ) : Sess υ := (s.1, { s.2 with stored := some s.1.2.body })

def readSizedBody : Eff (Sess υ) Exn (Option Response) := do
  if maxBodySize < f.contentLength then pure (some bodyTooLarge)
  else
    let s ← get
    let copied := bodyCopied f s.2
    modify (copyBuffered f)
    if copied < f.contentLength then (flushResponseBatch w).right else pure ()
    fillBody (f.contentLength - copied) copied (f.contentLength - copied)
    modify storeBody
    pure none

/-- The decode-and-read loop of a chunked body. The first argument bounds the rounds, each of which
but the first has read at least one byte. -/
def decodeBody (before : Nat) : Nat → PhrChunkedDecoder → Bytes → Eff (Sess υ) Exn (Option Response)
  | 0, _, _ => throw .system
  | rounds + 1, decoder, chunkBuf => do
    let r := phrDecodeChunked decoder chunkBuf
    onBody (· ++ r.2.1)
    let s ← get
    if maxBodySize < s.1.2.body.length then pure (some bodyTooLarge)
    else match r.2.2 with
      | .complete tail =>
        onConn fun c => { c with
          pipelineSpill := if 0 < tail.length then tail else c.pipelineSpill
          stored := some (s.1.2.body.drop before) }
        pure none
      | .failed => pure (some malformedChunked)
      | .incomplete =>
        (flushResponseBatch w).right
        let got ← (asyncReadSome 4096).right
        decodeBody before rounds r.1 got

def readChunkedBody : Eff (Sess υ) Exn (Option Response) := do
  let s ← get
  onConn fun c => { c with bufUsed := 0 }
  decodeBody w maxBodySize s.1.2.body.length (s.2.inbox.flatten.length + 1) .zeroed
    (s.2.readBuf.drop f.headerBytes)

def skipNoBody : Eff (Sess υ) Exn (Option Response) := do
  onConn fun c => { c with
    spillSrc := f.headerBytes
    bufUsed := c.readBuf.length - f.headerBytes
    stored := some [] }
  pure none

/-- Stage C behind the guard: an error response, or nothing when the body is there. -/
def readBodyOnce : Eff (Sess υ) Exn (Option Response) := do
  match ← answerExpect w maxBodySize f with
  | some err => pure (some err)
  | none =>
    if f.hasContentLength ∧ 0 < f.contentLength then readSizedBody w maxBodySize f
    else if f.isChunked then readChunkedBody w maxBodySize f
    else skipNoBody f

/-- `readRequestBody`: whoever comes first reads, and everyone after that is told that all is well. -/
def readRequestBody : Eff (Sess υ) Exn (Option Response) := do
  let s ← get
  if s.2.bodyRead then pure none
  else
    onConn fun c => { c with bodyRead := true, bodyReads := c.bodyReads + 1 }
    readBodyOnce w maxBodySize f

end Body

/-- A routed handler with the entries of its group. It sees the request, but cannot change it. -/
structure RouteHandler (υ : Type) where
  entries : List (MiddlewareEntry (View υ) Exn Response)
  handler : Request → Eff υ Exn Response

structure WsRoute where
  path : Bytes
  allowedOrigins : List Bytes
  deriving DecidableEq, Repr

structure Server (υ : Type) where
  maxHeaderSize : Nat
  maxBodySize : Nat
  /-- `hIsSslStream`: no upgrades on an encrypted stream. -/
  ssl : Bool
  router : Router (RouteHandler υ)
  wsRoutes : List WsRoute
  sseRoutes : List Bytes
  middlewarePipeline : List (MiddlewareEntry (View υ) Exn Response)
  errorHandler : Option (Exn → Request → Eff υ Exn Response)

/-- How a turn of the session ends when nothing is thrown. -/
inductive Step where
  | goOn
  | closed
  | handedOver
  deriving DecidableEq, Repr

section Observed
variable {υ : Type}

def noteUseBody (needsBody : Bool) (s : Sess υ) : Sess υ :=
  if needsBody then (s.1, { s.2 with invoked := s.2.invoked ++ [.useBody s.2.stored] }) else s

/-- A registered middleware in a session: it sees no more than its view. -/
def MiddlewareEntry.onSess :
    MiddlewareEntry (View υ) Exn Response → MiddlewareEntry (Sess υ) Exn Response
  | .hAsync (.code p) nb => .hAsync (.code (.act (noteUseBody nb) fun _ => p.lift)) nb
  | .hAsync .bodyGate nb => .hAsync .bodyGate nb
  | .hSync b a nb =>
    .hSync (b.map fun b => do modify (noteUseBody nb); b.lift)
      (a.map fun a => fun res => do modify (noteUseBody nb); (a res).lift) nb

def RouteHandler.call (h : RouteHandler υ) : Eff (Sess υ) Exn Response := do
  let s ← get
  onConn fun c => { c with invoked := c.invoked ++ [.handler s.1.2 c.stored] }
  (h.handler s.1.2).lift.lift

end Observed

section Dispatch
variable {υ : Type} (srv : Server υ) (w : World)

/-- A group of synchronous entries before a synchronous handler runs as one plain function; any
other handler is wrapped by the chain of its group. -/
def callEndpoint (readBody : Option (Eff (Sess υ) Exn (Option Response))) :
    Endpoint (RouteHandler υ) → Eff (Sess υ) Exn Response
  | .syncHandler h => mergedRun (h.entries.map MiddlewareEntry.onSess) h.call
  | .asyncHandler h => buildOptimizedChain readBody (h.entries.map MiddlewareEntry.onSess) h.call
  | .compileTimeChain h =>
    buildOptimizedChain readBody (h.entries.map MiddlewareEntry.onSess) h.call

def Matched.endpoint : Matched η → Endpoint η
  | .staticEntry e => e
  | .paramEntry e => e.endpoint
  | .wildcardEntry e => e.endpoint

/-- `dispatchSyncResolved` with `dispatchResolved` behind it. -/
def dispatchResolved (readBody : Option (Eff (Sess υ) Exn (Option Response)))
    (result : ResolveResult (RouteHandler υ)) : Eff (Sess υ) Exn Response :=
  if result.pathTooDeep then pure (.badRequest (bytes "Path too deep"))
  else match result.entry with
    | some e => callEndpoint readBody e.endpoint
    | none =>
      if result.allowedMethods ≠ [] then pure (.methodNotAllowed result.allowedMethods)
      else pure .notFound

def readUnlessRead (f : Framing) : Eff (Sess υ) Exn (Option Response) := do
  let s ← get
  if s.2.bodyRead then pure none else readRequestBody w srv.maxBodySize f

def tail (f : Framing) (result : ResolveResult (RouteHandler υ)) : Eff (Sess υ) Exn Response := do
  match ← readUnlessRead srv w f with
  | some err => pure err
  | none => dispatchResolved (some (readRequestBody w srv.maxBodySize f)) result

def chainEntriesOf : List (MiddlewareEntry (Sess υ) Exn Response) :=
  srv.middlewarePipeline.map MiddlewareEntry.onSess

/-- The body of the `try` block: through the middlewares, or straight to the handler. -/
def dispatchRequest (f : Framing) (result : ResolveResult (RouteHandler υ)) :
    Eff (Sess υ) Exn Response :=
  if 0 < srv.middlewarePipeline.length then
    buildOptimizedChain (some (readRequestBody w srv.maxBodySize f)) (chainEntriesOf srv)
      (tail srv w f result)
  else do
    match ← readRequestBody w srv.maxBodySize f with
    | some err => pure err
    | none => dispatchResolved none result

def errorResponse (e : Exn) : Eff (Sess υ) Exn Response :=
  match e, srv.errorHandler with
  | .other, _ => pure .serverError
  | _, none => pure .serverError
  | e, some errorHandler => Eff.of fun s =>
    match ((errorHandler e s.1.2).lift.lift : Eff (Sess υ) Exn Response).exec s with
    | (.ok res, s') => (.ok res, s')
    | (.error _, s') => (.ok .serverError, s')

/-- The two `catch` clauses: whatever is thrown becomes a response. -/
def catching (x : Eff (Sess υ) Exn Response) : Eff (Sess υ) Exn Response :=
  Eff.of fun s =>
    match x.exec s with
    | (.ok res, s') => (.ok res, s')
    | (.error e, s') => (errorResponse srv e).exec s'

end Dispatch

section Upgrades
variable {υ : Type} (srv : Server υ) (w : World)

/-- `findWsRoute` and `findSseRoute`: a literal path first, then the parameter routes. -/
def findUpgradeRoute (pathOf : α → Bytes) (routes : List α) (path : Bytes) :
    Option (α × ParamList) :=
  match routes.find? fun r => !isParamRoute (pathOf r) && pathOf r == path with
  | some r => some (r, [])
  | none =>
    (routes.find? fun r => isParamRoute (pathOf r) && (matchParamPath (pathOf r) path).isSome).map
      fun r => (r, (matchParamPath (pathOf r) path).getD [])

def Server.findWsRoute (path : Bytes) : Option (WsRoute × ParamList) :=
  findUpgradeRoute WsRoute.path srv.wsRoutes path

def Server.findSseRoute (path : Bytes) : Option (Bytes × ParamList) :=
  findUpgradeRoute id srv.sseRoutes path

def Server.wsTarget (req : Request) : Option (WsRoute × ParamList) :=
  if !srv.ssl && req.isUpgrade then srv.findWsRoute req.path else none

def Server.sseTarget (req : Request) : Option (Bytes × ParamList) :=
  if !srv.ssl && req.method == .hGet then srv.findSseRoute req.path else none

def Server.isWsOrSse (req : Request) : Bool :=
  (srv.wsTarget req).isSome || (srv.sseTarget req).isSome

def setParam (params : ParamList) (p : Bytes × Bytes) : ParamList :=
  match params with
  | [] => [p]
  | q :: params => if q.1 = p.1 then (q.1, p.2) :: params else q :: setParam params p

def setParams (params : ParamList) : Eff (Sess υ) Exn Unit :=
  modify fun s => ((s.1.1, { s.1.2 with params := params.foldl setParam s.1.2.params }), s.2)

/-- Answer instead of handing the socket over. -/
def rejectUpgrade (res : Response) : Eff (Sess υ) Exn Step := do
  (writeResponse w { res with
    httpVersionMinor := 1, headers := res.headers.set (bytes "Connection") (bytes "close") }
    [] false).right
  pure .closed

/-- `wsMiddlewareChain_`: the global entries without a body to read, before a placeholder. -/
def upgradeChain : Eff (Sess υ) Exn Response :=
  buildOptimizedChain none (chainEntriesOf srv) (pure .okEmpty)

def passUpgrade (accept : Eff (Sess υ) Exn Step) : Eff (Sess υ) Exn Step :=
  if 0 < srv.middlewarePipeline.length then do
    let res ← upgradeChain srv
    if res.status ≠ .hOk then rejectUpgrade w res else accept
  else accept

def originNotAllowed : Response :=
  .plainText .hForbidden (bytes "403 Forbidden: Origin not allowed")

def invalidUpgrade : Response :=
  .plainText .hBadRequest (bytes "400 Bad Request: invalid WebSocket upgrade")

/-- The last check before the socket changes hands. -/
def acceptWebSocket : Eff (Sess υ) Exn Step := do
  let s ← get
  if s.1.2.validateWsUpgrade then pure .handedOver else rejectUpgrade w invalidUpgrade

def serveWebSocket (route : WsRoute) (params : ParamList) : Eff (Sess υ) Exn Step := do
  (flushResponseBatch w).right
  setParams params
  let s ← get
  if route.allowedOrigins ≠ [] ∧ s.1.2.headers.find (bytes "Origin") ∉ route.allowedOrigins then
    rejectUpgrade w originNotAllowed
  else passUpgrade srv w (acceptWebSocket w)

def serveSse (params : ParamList) : Eff (Sess υ) Exn Step := do
  (flushResponseBatch w).right
  setParams params
  passUpgrade srv w (pure .handedOver)

end Upgrades

section Writing
variable {υ : Type} (w : World)

def kMaxResponseBatchBytes : Nat := 64 * 1024

def hicalVersionString : Bytes := bytes "hical/2.7.2"

/-- The prebuilt fields of a response on a connection that stays open. -/
def responsePrefix (date : Bytes) : Bytes :=
  bytes "Server: " ++ hicalVersionString ++ bytes "\r\nConnection: keep-alive\r\nDate: " ++ date ++
    crlf

/-- The last response of a connection carries the common fields itself. -/
def closingResponse (date : Bytes) (res : Response) : Response :=
  { res with headers := ((res.headers.insert (bytes "Server") hicalVersionString).insert
      (bytes "Connection") (bytes "close")).insert (bytes "Date") date }

def writeClosing (res : Response) (isHead : Bool) : Eff Conn Exn Unit := do
  flushResponseBatch w
  let c ← get
  let res := closingResponse (w.cachedHttpDate c.turn) res
  match res.fileBody with
  | some fb => if isHead then writeResponse w res [] isHead else writeFileResponse w res [] fb
  | none => writeResponse w res [] isHead

def writeKeptAlive (res : Response) (isHead : Bool) : Eff Conn Exn Unit := do
  let c ← get
  let common := responsePrefix (w.cachedHttpDate c.turn)
  match res.fileBody with
  | some fb =>
    flushResponseBatch w
    if isHead then writeResponse w res common isHead else writeFileResponse w res common fb
  | none =>
    if res.hasChunkedBody then
      flushResponseBatch w
      writeResponse w res common isHead
    else if kMaxResponseBatchBytes ≤ res.body.length then
      flushResponseBatch w
      writeResponse w res common isHead
    else if c.responseBatch = [] ∧ c.bufUsed = 0 then writeResponse w res common isHead
    else
      appendResponseToBatch res common isHead
      let c ← get
      if kMaxResponseBatchBytes ≤ c.responseBatch.length then flushResponseBatch w else pure ()

/-- Keep the bytes of the next request for the next turn. -/
def storeSpill (c : Conn) : Conn :=
  if 0 < c.bufUsed then { c with pipelineSpill := (c.readBuf.drop c.spillSrc).take c.bufUsed }
  else c

def writePhase (res : Response) : Eff (Sess υ) Exn Step := do
  let s ← get
  let shouldKeepAlive := s.1.2.keepAlive && !w.draining s.2.turn
  let res := { res with httpVersionMinor := 1, keepAlive := shouldKeepAlive }
  let isHead := s.1.2.method == .hHead
  if shouldKeepAlive then (writeKeptAlive w res isHead).right
  else (writeClosing w res isHead).right
  onConn storeSpill
  pure (if shouldKeepAlive then .goOn else .closed)

end Writing

section Turn
variable {υ : Type} (srv : Server υ) (w : World)

/-- The main chain runs unless the socket is about to change hands. -/
def runMainChain (f : Framing) (result : ResolveResult (RouteHandler υ)) :
    Eff (Sess υ) Exn Response := do
  let s ← get
  if srv.isWsOrSse s.1.2 then pure {} else catching srv (dispatchRequest srv w f result)

/-- Hand the socket over or write the response; what the request looks like by now decides. -/
def conclude (res : Response) : Eff (Sess υ) Exn Step := do
  let s ← get
  match srv.wsTarget s.1.2, srv.sseTarget s.1.2 with
  | some (route, params), _ => serveWebSocket srv w route params
  | none, some (_, params) => serveSse srv w params
  | none, none => writePhase w res

/-- Stage D. -/
def serveMatched (f : Framing) (result : ResolveResult (RouteHandler υ)) :
    Eff (Sess υ) Exn Step := do
  let res ← runMainChain srv w f result
  conclude srv w res

def refuseRequest (statusCode : Nat) (reason body : Bytes) : Eff (Sess υ) Exn Step := do
  let _ ← (refuse w statusCode reason body : Eff Conn Exn (Option Unit)).right
  pure .closed

/-- A request with a body that no route takes: the body is not read, and the connection ends. -/
def refuseUnmatched (result : ResolveResult (RouteHandler υ)) : Eff (Sess υ) Exn Step :=
  if result.isMethodNotAllowed then do
    (flushResponseBatch w).right
    let res := Response.methodNotAllowed result.allowedMethods
    (writeResponse w { res with
      keepAlive := false, headers := res.headers.set (bytes "Connection") (bytes "close") }
      [] false).right
    pure .closed
  else refuseRequest w 404 (bytes "Not Found") (bytes "Not Found")

def framingOf (head : PhrRequest) (headerBytes : Nat) : Framing where
  headerBytes := headerBytes
  hasContentLength := (scanHead head).hasContentLength
  contentLength := (scanHead head).contentLength
  isChunked := (scanHead head).isChunked
  minorVersion := head.minorVersion

def resolve (head : PhrRequest) : ResolveResult (RouteHandler υ) :=
  srv.router.resolveRoute (buildRequest head).method (buildRequest head).path

/-- Stages B to D for a complete head. -/
def serveHead (head : PhrRequest) (headerBytes : Nat) : Eff (Sess υ) Exn Step :=
  let scan := scanHead head
  let result := resolve srv head
  if scan.badFraming head.minorVersion then
    refuseRequest w 400 (bytes "Bad Request") (bytes "Invalid request framing")
  else if scan.transferEncodingStatus = .hNotImplemented then
    refuseRequest w 501 (bytes "Not Implemented") (bytes "Unsupported Transfer-Encoding")
  else if result.pathTooDeep then
    refuseRequest w 400 (bytes "Bad Request") (bytes "Path too deep")
  else if !result.isMatch && scan.hasRequestBody then refuseUnmatched w result
  else serveMatched srv w (framingOf head headerBytes) result

def routedRequest (head : PhrRequest) : Request :=
  { buildRequest head with params := (resolve srv head).params.foldl setParam [] }

def startTurn (c : Conn) : Conn :=
  { c with turn := c.turn + 1, spillSrc := 0, bodyRead := false, stored := none, bodyReads := 0 }

/-- One turn of the loop of `handleSession`: one request, from its first byte to its response. -/
def turn : Eff (υ × Conn) Exn Step := do
  modify fun s => (s.1, startTurn s.2)
  match ← (readHead w srv.maxHeaderSize).right with
  | none => pure .closed
  | some (head, headerBytes) => Eff.of fun s =>
    let r := (serveHead srv w head headerBytes).exec ((s.1, routedRequest srv head), s.2)
    (r.1, r.2.1.1, r.2.2)

end Turn

end Hical
