import Hical.Router.Table

namespace Hical

inductive HttpStatusCode where
  | hOk | hCreated | hAccepted | hNoContent | hPartialContent
  | hMovedPermanently | hFound | hNotModified | hTemporaryRedirect | hPermanentRedirect
  | hBadRequest | hUnauthorized | hForbidden | hNotFound | hMethodNotAllowed | hConflict
  | hPayloadTooLarge | hRequestedRangeNotSatisfiable | hTooManyRequests
  | hInternalServerError | hNotImplemented | hBadGateway | hServiceUnavailable
  /-- No enumerator of the source, where it is cast from 408. -/
  | kRequestTimeout
  deriving DecidableEq, Repr

/-- The decimal digits of a number, as `std::to_chars` writes them. -/
def decimal (n : Nat) : Bytes := bytes (toString n)

def hexadecimal (n : Nat) : Bytes := (Nat.toDigits 16 n).map fun c => UInt8.ofNat c.toNat

def HttpStatusCode.code : HttpStatusCode → Nat
  | .hOk => 200
  | .hCreated => 201
  | .hAccepted => 202
  | .hNoContent => 204
  | .hPartialContent => 206
  | .hMovedPermanently => 301
  | .hFound => 302
  | .hNotModified => 304
  | .hTemporaryRedirect => 307
  | .hPermanentRedirect => 308
  | .hBadRequest => 400
  | .hUnauthorized => 401
  | .hForbidden => 403
  | .hNotFound => 404
  | .hMethodNotAllowed => 405
  | .hConflict => 409
  | .hPayloadTooLarge => 413
  | .hRequestedRangeNotSatisfiable => 416
  | .hTooManyRequests => 429
  | .hInternalServerError => 500
  | .hNotImplemented => 501
  | .hBadGateway => 502
  | .hServiceUnavailable => 503
  | .kRequestTimeout => 408

def httpStatusCodeToString : HttpStatusCode → Bytes
  | .hOk => bytes "OK"
  | .hCreated => bytes "Created"
  | .hAccepted => bytes "Accepted"
  | .hNoContent => bytes "No Content"
  | .hPartialContent => bytes "Partial Content"
  | .hMovedPermanently => bytes "Moved Permanently"
  | .hFound => bytes "Found"
  | .hNotModified => bytes "Not Modified"
  | .hTemporaryRedirect => bytes "Temporary Redirect"
  | .hPermanentRedirect => bytes "Permanent Redirect"
  | .hBadRequest => bytes "Bad Request"
  | .hUnauthorized => bytes "Unauthorized"
  | .hForbidden => bytes "Forbidden"
  | .hNotFound => bytes "Not Found"
  | .hMethodNotAllowed => bytes "Method Not Allowed"
  | .hConflict => bytes "Conflict"
  | .hPayloadTooLarge => bytes "Payload Too Large"
  | .hRequestedRangeNotSatisfiable => bytes "Range Not Satisfiable"
  | .hTooManyRequests => bytes "Too Many Requests"
  | .hInternalServerError => bytes "Internal Server Error"
  | .hNotImplemented => bytes "Not Implemented"
  | .hBadGateway => bytes "Bad Gateway"
  | .hServiceUnavailable => bytes "Service Unavailable"
  | .kRequestTimeout => bytes "Unknown"

structure FileBody where
  path : Bytes
  offset : Nat
  length : Nat
  deriving DecidableEq, Repr

structure ChunkedBody where
  chunks : List Bytes
  trailers : Fields
  deriving DecidableEq, Repr

/-- `NativeResponse`. -/
structure Response where
  status : HttpStatusCode := .hOk
  httpVersionMinor : Nat := 1
  headers : Fields := []
  body : Bytes := []
  fileBody : Option FileBody := none
  keepAlive : Bool := true
  chunkedBody : Option ChunkedBody := none
  payloadPrepared : Bool := false
  deriving DecidableEq, Repr

namespace Response

def hasFileBody (r : Response) : Bool := r.fileBody.isSome

def hasChunkedBody (r : Response) : Bool := r.chunkedBody.isSome

/-- The headers after `preparePayload` has filled in how the payload is framed. -/
def payloadHeaders (r : Response) : Fields :=
  match r.chunkedBody, r.fileBody with
  | some _, _ =>
    (r.headers.set (bytes "Transfer-Encoding") (bytes "chunked")).erase (bytes "Content-Length")
  | none, some fb => r.headers.set (bytes "Content-Length") (decimal fb.length)
  | none, none =>
    if iequals (r.headers.find (bytes "Transfer-Encoding")) (bytes "chunked") then
      r.headers.erase (bytes "Content-Length")
    else if r.body = [] then
      if r.status.code ≠ 204 ∧ r.status.code ≠ 304 then
        r.headers.set (bytes "Content-Length") (bytes "0")
      else r.headers
    else r.headers.set (bytes "Content-Length") (decimal r.body.length)

def preparePayload (r : Response) : Response :=
  if r.payloadPrepared then r
  else { r with payloadPrepared := true, headers := r.payloadHeaders }

def statusLine (r : Response) : Bytes :=
  if r.status = .hOk ∧ r.httpVersionMinor = 1 then bytes "HTTP/1.1 200 OK\r\n"
  else bytes "HTTP/1." ++ [UInt8.ofNat (48 + r.httpVersionMinor), SP] ++ decimal r.status.code ++
    [SP] ++ httpStatusCodeToString r.status ++ crlf

def fieldWire (f : Field) : Bytes := f.name ++ bytes ": " ++ f.value ++ crlf

def serializeHeadTo (r : Response) (common : Bytes) : Bytes :=
  r.statusLine ++ r.headers.flatMap fieldWire ++ common ++ crlf

def setStatus (r : Response) (code : HttpStatusCode) : Response :=
  { r with status := code, payloadPrepared := false }

def containsCRLF (s : Bytes) : Bool := s.any fun b => b == CR || b == LF

def setHeader (r : Response) (name value : Bytes) : Response :=
  if containsCRLF name || containsCRLF value then r
  else { r with headers := r.headers.set name value }

def setBody (r : Response) (body contentType : Bytes) : Response :=
  if containsCRLF contentType then r
  else preparePayload { r with
    payloadPrepared := false, body := body,
    headers := r.headers.set (bytes "Content-Type") contentType }

def plainText (code : HttpStatusCode) (body : Bytes) : Response :=
  (setStatus {} code).setBody body (bytes "text/plain")

def noSniff (r : Response) : Response :=
  r.setHeader (bytes "X-Content-Type-Options") (bytes "nosniff")

def notFound : Response := (plainText .hNotFound (bytes "Not Found")).noSniff

def badRequest (message : Bytes) : Response := (plainText .hBadRequest message).noSniff

def serverError : Response :=
  (plainText .hInternalServerError (bytes "Internal Server Error")).noSniff

/-- The placeholder that ends the chain of an upgrade: `ok("")`. -/
def okEmpty : Response := setStatus {} .hOk

def methodNotAllowed (allowed : Bytes) : Response :=
  ((setStatus {} .hMethodNotAllowed).setHeader (bytes "Allow") allowed).setBody
    (bytes "Method Not Allowed") (bytes "text/plain")

end Response

/-- `serializeChunkedBodyTo`. -/
def serializeChunkedBody (b : ChunkedBody) : Bytes :=
  b.chunks.flatMap (fun c => hexadecimal c.length ++ crlf ++ c ++ crlf) ++ bytes "0\r\n" ++
    b.trailers.flatMap Response.fieldWire ++ crlf

/-- `NativeRequest`, with the parameters the router sets on it. -/
structure Request where
  method : HttpMethod
  target : Bytes
  httpVersionMinor : Nat
  headers : Fields
  body : Bytes
  keepAlive : Bool
  expectContinue : Bool
  upgradePreScanned : Option Bool
  params : ParamList
  deriving DecidableEq, Repr

def comma : UInt8 := 44

def trimWith (P : UInt8 → Bool) (s : Bytes) : Bytes :=
  ((s.dropWhile P).reverse.dropWhile P).reverse

/-- The token loop of `connectionHasUpgradeToken`; a trailing comma only adds an empty token. -/
def connectionHasUpgradeToken (connValue : Bytes) : Bool :=
  (connValue.splitOn comma).any fun token =>
    iequals (trimWith (· == SP) token) (bytes "upgrade")

namespace Request

def path (r : Request) : Bytes := (cut 63 r.target).1

def isUpgrade (r : Request) : Bool :=
  (match r.upgradePreScanned with
    | some b => b
    | none => connectionHasUpgradeToken (r.headers.find (bytes "Connection"))) &&
  iequals (r.headers.find (bytes "Upgrade")) (bytes "websocket")

/-- The handshake fields are in order. -/
def validateWsUpgrade (r : Request) : Bool :=
  r.headers.find (bytes "Sec-WebSocket-Version") == bytes "13" &&
    (r.headers.find (bytes "Sec-WebSocket-Key")).length == 24

end Request

end Hical

namespace Hical.Response

theorem containsCRLF_eq_false : containsCRLF s = false ↔ ∀ b ∈ s, b ≠ CR ∧ b ≠ LF := by
  rw [containsCRLF, List.any_eq_false]
  apply forall_congr'
  intro b
  rw [Bool.or_eq_true, beq_iff_eq, beq_iff_eq, not_or]

theorem containsCRLF_append (s t : Bytes) :
    containsCRLF (s ++ t) = (containsCRLF s || containsCRLF t) := List.any_append

theorem containsCRLF_decimal (n : Nat) : containsCRLF (decimal n) = false := by
  apply List.any_eq_false.2
  intro b hb
  have hrepr : (toString n).toList = Nat.toDigits 10 n := Nat.toList_repr
  rw [decimal, bytes, hrepr] at hb
  obtain ⟨d, hd, rfl⟩ := List.mem_map.1 hb
  have hdigit := Nat.isDigit_of_mem_toDigits (by decide) (by decide) hd
  rw [Char.isDigit, Bool.and_eq_true, decide_eq_true_eq, decide_eq_true_eq] at hdigit
  have hlo : 48 ≤ d.toNat := hdigit.1
  have hhi : d.toNat ≤ 57 := hdigit.2
  have htoNat : (UInt8.ofNat d.toNat).toNat = d.toNat := UInt8.toNat_ofNat_of_lt (Nat.lt_of_le_of_lt hhi (by decide))
  rw [Bool.or_eq_true, beq_iff_eq, beq_iff_eq]
  rintro (h | h)
  · have heq := congrArg UInt8.toNat h
    rw [htoNat] at heq
    have hcr : CR.toNat = 13 := rfl
    omega
  · have heq := congrArg UInt8.toNat h
    rw [htoNat] at heq
    have hlf : LF.toNat = 10 := rfl
    omega

end Hical.Response
