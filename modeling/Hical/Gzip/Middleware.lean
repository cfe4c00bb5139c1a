import Hical.Client.Options
import Hical.Session.Decision

/-! The middleware that compresses responses. -/

namespace Hical.Gzip
open Hical.Client (HttpProtocol)

structure GzipCompressionOptions where
  minSize : Nat := 1024
  streamingThreshold : Nat := 65536
  compressionLevel : Nat := 6

def isCompressible (contentType : Bytes) : Bool :=
  let mediaType := (cut semicolon contentType).1
  contentType ≠ [] &&
    ((bytes "text/").isPrefixOf mediaType || (bytes "application/json").isPrefixOf mediaType ||
      (bytes "application/javascript").isPrefixOf mediaType || (bytes "application/xml").isPrefixOf mediaType ||
      (bytes "image/svg+xml").isPrefixOf mediaType || (bytes "application/xhtml+xml").isPrefixOf mediaType)

/-- A weight that is well formed and not zero. -/
def positiveQuality : Bytes → Bool
  | [] => false
  | [front] => front == 49
  | front :: dot :: digits =>
    (front == 48 || front == 49) && digits.length ≤ 3 && dot == 46 &&
      digits.all (fun digit => 48 ≤ digit && digit ≤ 57 && !(front == 49 && digit != 48)) &&
      (front == 49 || digits.any (· != 48))

/-- A parameter of a coding; only `q` says whether it is acceptable. -/
def acceptableParameter (parameter : Bytes) : Bool :=
  let (name, value) := cut 61 parameter
  !iequals (trimWith isBlank name) (bytes "q") ||
    match value with
    | none => false
    | some value => positiveQuality (trimWith isBlank value)

/-- The loops over the elements and their parameters; an empty last piece changes nothing. -/
def acceptsGzip (request : Request) : Bool :=
  (elements (request.headers.find (bytes "Accept-Encoding"))).any fun parameters =>
    match (parameters.splitOn semicolon).map (trimWith isBlank) with
    | [] => false
    | coding :: parameters => iequals coding (bytes "gzip") && parameters.all acceptableParameter

/-- A field of the name `Vary` has the star or the name of the request's field. -/
def variesOnEncoding (headers : Fields) : Bool :=
  headers.any fun field => iequals field.name (bytes "vary") &&
    (elements field.value).any fun token => token == bytes "*" || iequals token (bytes "accept-encoding")

def varyAcceptEncoding (headers : Fields) : Fields :=
  if variesOnEncoding headers then headers
  else
    let vary := headers.find (bytes "Vary")
    headers.set (bytes "Vary") ((if vary = [] then [] else vary ++ bytes ", ") ++ bytes "Accept-Encoding")

def compressionEligible (response : Response) (options : GzipCompressionOptions) : Bool :=
  response.body ≠ [] && !response.hasChunkedBody && !response.hasFileBody &&
    !(response.headers.any fun field => iequals field.name (bytes "Content-Encoding")) &&
    options.minSize ≤ response.body.length && isCompressible (response.headers.find (bytes "Content-Type")) &&
    200 ≤ response.status.code && response.status.code ≠ 204 && response.status.code ≠ 304

def applyCompressed (response : Response) (compressed : Bytes) (chunked : Bool) : Response :=
  let headers := ((response.headers.set (bytes "Content-Encoding") (bytes "gzip")).erase
    (bytes "Transfer-Encoding")).erase (bytes "Content-Length")
  Response.preparePayload { response with
    payloadPrepared := false
    body := compressed
    headers := if chunked then headers.set (bytes "Transfer-Encoding") (bytes "chunked") else headers }

/-- The body is sent in chunks. -/
def streams (options : GzipCompressionOptions) (protocol : HttpProtocol) (body : Bytes) : Bool :=
  protocol != .hHttp2 && options.streamingThreshold ≤ body.length

/-- The middleware in front of a handler's response. A monad is what the compression can do besides
giving bytes. -/
def makeGzipCompressionMiddleware {M : Type → Type} [Monad M] (compressBytes : Bytes → Nat → Bool → M Bytes)
    (opts : GzipCompressionOptions) (protocol : HttpProtocol) (request : Request) (response : Response) : M Response :=
  if compressionEligible response opts then
    let response := { response with headers := varyAcceptEncoding response.headers }
    if acceptsGzip request then do
      let chunked := streams opts protocol response.body
      let compressed ← compressBytes response.body opts.compressionLevel chunked
      pure (applyCompressed response compressed chunked)
    else pure response
  else pure response

/-- What is answered when the compression on the pool has thrown. -/
def compressionFailed : Response :=
  (Response.setStatus {} .hInternalServerError).setBody (bytes "gzip compression failed") (bytes "text/plain")

/-- The asynchronous middleware behind its handler. -/
def compressAfter {ε : Type} (compressBytes compressOnWorker : Bytes → Nat → Bool → Except ε Bytes)
    (options : GzipCompressionOptions) (pool : Bool) (protocol : HttpProtocol) (request : Request) (response : Response) :
    Except ε Response :=
  if compressionEligible response options then
    let response := { response with headers := varyAcceptEncoding response.headers }
    if acceptsGzip request then
      let chunked := streams options protocol response.body
      if !pool || response.body.length < options.streamingThreshold then do
        let compressed ← compressBytes response.body options.compressionLevel chunked
        pure (applyCompressed response compressed chunked)
      else
        -- the body has moved to the worker
        match compressOnWorker response.body options.compressionLevel chunked with
        | .ok compressed => pure (applyCompressed { response with body := [] } compressed chunked)
        | .error _ => pure compressionFailed
    else pure response
  else pure response

def makeGzipCompressionMiddlewareAsync {ε : Type} (compressBytes compressOnWorker : Bytes → Nat → Bool → Except ε Bytes)
    (opts : GzipCompressionOptions) (asyncThreads : Nat) (protocol : HttpProtocol) (request : Request)
    (response : Response) : Except ε Response :=
  compressAfter compressBytes compressOnWorker opts (0 < asyncThreads) protocol request response

end Hical.Gzip
