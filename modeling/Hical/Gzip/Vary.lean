import Hical.Gzip.Middleware
import Hical.Response.OwnFields

/-! What stacked middlewares make of the `Vary` fields of a response. -/

namespace Hical.Gzip
open Hical.Client (HttpProtocol)

structure CorsOptions where
  allowedOrigins : List Bytes
  allowedMethods : List Bytes
  allowedHeaders : List Bytes
  exposeHeaders : List Bytes
  allowCredentials : Bool := false
  maxAge : Int := 86400
  /-- Only explicit origins. -/
  explicit : bytes "*" ∉ allowedOrigins

def joinStrings (vec : List Bytes) : Bytes := (bytes ", ").intercalate vec

namespace CorsOptions

def allows (opts : CorsOptions) (request : Request) : Bool :=
  let origin := request.headers.find (bytes "Origin")
  origin ≠ [] && opts.allowedOrigins.contains origin

def applyCommonHeaders (opts : CorsOptions) (origin : Bytes) (res : Response) : Response :=
  let res := res.setHeader (bytes "Access-Control-Allow-Origin") origin
  let res := if opts.allowCredentials then res.setHeader (bytes "Access-Control-Allow-Credentials") (bytes "true") else res
  res.setHeader (bytes "Vary") (bytes "Origin")

end CorsOptions

def isPreflight (request : Request) : Bool :=
  request.method == .hOptions && request.headers.find (bytes "Access-Control-Request-Method") != []

/-- What the middleware answers itself. -/
def preflightResponse (opts : CorsOptions) (origin : Bytes) : Response :=
  let res := opts.applyCommonHeaders origin (({} : Response).setStatus .hNoContent)
  let res := res.setHeader (bytes "Access-Control-Allow-Methods") (joinStrings opts.allowedMethods)
  let res := res.setHeader (bytes "Access-Control-Allow-Headers") (joinStrings opts.allowedHeaders)
  res.setHeader (bytes "Access-Control-Max-Age") (bytes (toString opts.maxAge))

def makeCorsMiddleware (opts : CorsOptions) (request : Request) (next : Request → Response) : Response :=
  if opts.allows request then
    let origin := request.headers.find (bytes "Origin")
    if isPreflight request then preflightResponse opts origin
    else
      let res := opts.applyCommonHeaders origin (next request)
      if joinStrings opts.exposeHeaders ≠ [] then
        res.setHeader (bytes "Access-Control-Expose-Headers") (joinStrings opts.exposeHeaders)
      else res
  else next request

inductive Layer where
  | cors (opts : CorsOptions)
  | gzip (opts : GzipCompressionOptions)

variable (compressBytes : Bytes → Nat → Bool → Bytes) (protocol : HttpProtocol)

/-- The response behind a stack of middlewares, the outermost one first. -/
def respond (request : Request) (response : Response) : List Layer → Response
  | [] => response
  | .cors opts :: layers => makeCorsMiddleware opts request fun request => respond request response layers
  | .gzip opts :: layers =>
    Id.run (makeGzipCompressionMiddleware (fun body level chunked => pure (compressBytes body level chunked)) opts protocol
      request (respond request response layers))

def namesOf (value : Bytes) : List Bytes := (elements value).filter (· ≠ [])

/-- The names of the first `Vary` field, which `set` replaces. -/
def firstNames (headers : Fields) : List Bytes :=
  match Response.named (bytes "Vary") headers with
  | [] => []
  | f :: _ => namesOf f.value

def otherNames (headers : Fields) : List Bytes :=
  (Response.named (bytes "Vary") headers).tail.flatMap fun f => namesOf f.value

def varyNames (headers : Fields) : List Bytes := firstNames headers ++ otherNames headers

/-- The name is listed, or the star is, which stands for every name. -/
def Covers (names : List Bytes) (name : Bytes) : Prop := ∃ t ∈ names, iequals t name ∨ t = bytes "*"

/-- A middleware of the stack allows the request's origin, and echoes it. -/
def Allowed (request : Request) (layers : List Layer) : Prop := ∃ opts, .cors opts ∈ layers ∧ opts.allows request

/-- A middleware of the stack compresses the response for a client that accepts it. -/
def Decides (response : Response) (layers : List Layer) : Prop :=
  ∃ opts, .gzip opts ∈ layers ∧ compressionEligible response opts

/-- The handler is not called. -/
def Answered (request : Request) (layers : List Layer) : Prop := isPreflight request ∧ Allowed request layers

/-- The same request with another `Accept-Encoding`. -/
def accepting (request : Request) (value : Bytes) : Request :=
  { request with headers := request.headers.set (bytes "Accept-Encoding") value }

def coding (response : Response) : Bytes := response.headers.find (bytes "Content-Encoding")

def allowOrigin (response : Response) : Bytes := response.headers.find (bytes "Access-Control-Allow-Origin")

/-- Without its origin, the request would be answered with another `Access-Control-Allow-Origin`. -/
def OriginDepends (request : Request) (response : Response) (layers : List Layer) : Prop :=
  allowOrigin (respond compressBytes protocol { request with headers := request.headers.set (bytes "Origin") [] }
    response layers) ≠ allowOrigin (respond compressBytes protocol request response layers)

/-- A middleware outside of the one that replaces the field adds the name again. -/
def Refreshed (request : Request) (response : Response) (outer inner : List Layer) : Prop :=
  Decides response outer ∧ ¬(acceptsGzip request ∧ Decides response inner)

/-- The outermost middleware that echoes the origin replaces no name that is not there elsewhere. -/
def Kept (request : Request) (response : Response) (layers : List Layer) : Prop :=
  ¬isPreflight request → ∀ outer opts inner, layers = outer ++ .cors opts :: inner → opts.allows request →
    ¬Allowed request outer →
      (∀ name ∈ firstNames response.headers, iequals (bytes "Origin") name ∨ Covers (otherNames response.headers) name ∨
        Refreshed request response outer inner ∧ iequals (bytes "Accept-Encoding") name) ∧
      (Decides response inner → Covers (otherNames response.headers) (bytes "Accept-Encoding") ∨
        Refreshed request response outer inner)

section Names
variable {h : Fields} {name value : Bytes}

theorem named_set_first (h : Fields) (name value : Bytes) : Response.named name (h.set name value) =
    match Response.named name h with
    | [] => [⟨name, value⟩]
    | f :: fs => ⟨f.name, value⟩ :: fs := by
  induction h with
  | nil => exact Response.named_same (iequals_self name) []
  | cons e h ih =>
    rw [Fields.set]
    cases he : iequals e.name name with
    | true =>
      rw [if_pos rfl, Response.named_same he]
      exact Response.named_same (e := ⟨e.name, value⟩) he h
    | false => rw [if_neg Bool.false_ne_true, Response.named_other he, Response.named_other he, ih]

theorem firstNames_set (h : Fields) (value : Bytes) : firstNames (h.set (bytes "Vary") value) = namesOf value := by
  rw [firstNames, named_set_first]
  cases Response.named (bytes "Vary") h with
  | nil => rfl
  | cons f fs => rfl

theorem otherNames_set (h : Fields) (value : Bytes) : otherNames (h.set (bytes "Vary") value) = otherNames h := by
  rw [otherNames, otherNames, named_set_first]
  cases Response.named (bytes "Vary") h with
  | nil => rfl
  | cons f fs => rfl

theorem namesOf_append (value : Bytes) :
    namesOf (value ++ bytes ", " ++ bytes "Accept-Encoding") = namesOf value ++ [bytes "Accept-Encoding"] := by
  have hsplit : value ++ bytes ", " ++ bytes "Accept-Encoding" = value ++ comma :: bytes " Accept-Encoding" := by
    rw [List.append_assoc]
    rfl
  have hlast : namesOf (bytes " Accept-Encoding") = [bytes "Accept-Encoding"] := by decide
  rw [namesOf, elements, hsplit, List.splitOn_append_cons_self, List.map_append, List.filter_append]
  exact congrArg _ hlast

theorem covers_append {names names' : List Bytes} : Covers (names ++ names') name ↔ Covers names name ∨ Covers names' name := by
  simp only [Covers, List.mem_append, or_and_right, exists_or]

theorem firstNames_find (h : Fields) : firstNames h = namesOf (h.find (bytes "Vary")) := by
  rw [firstNames, Response.find_own, Response.own]
  cases Response.named (bytes "Vary") h with
  | nil => decide
  | cons f fs => rfl

theorem mem_varyNames : name ∈ varyNames h ↔
    ∃ f ∈ h, iequals f.name (bytes "Vary") = true ∧ name ∈ elements f.value ∧ name ≠ [] := by
  have hall : varyNames h = (Response.named (bytes "Vary") h).flatMap fun f => namesOf f.value := by
    rw [varyNames, firstNames, otherNames]
    cases Response.named (bytes "Vary") h with
    | nil => rfl
    | cons f fs => rfl
  rw [hall]
  simp [namesOf, Response.named, and_assoc]

theorem covers_trans (h : Covers names (bytes "Accept-Encoding")) (hname : iequals (bytes "Accept-Encoding") name) :
    Covers names name := by
  obtain ⟨t, ht, hcovers⟩ := h
  refine ⟨t, ht, hcovers.imp_left fun hsame => ?_⟩
  rw [iequals_iff] at hsame hname ⊢
  exact hsame.trans hname

theorem variesOnEncoding_iff : variesOnEncoding h = true ↔ Covers (varyNames h) (bytes "Accept-Encoding") := by
  have hlower : (bytes "vary").map toLower = (bytes "Vary").map toLower ∧
      (bytes "accept-encoding").map toLower = (bytes "Accept-Encoding").map toLower := by decide
  have hnonempty {token : Bytes} (ht : iequals token (bytes "Accept-Encoding") ∨ token = bytes "*") : token ≠ [] := by
    rintro rfl
    revert ht
    decide
  simp only [variesOnEncoding, Covers, mem_varyNames, List.any_eq_true, Bool.and_eq_true, Bool.or_eq_true, beq_iff_eq,
    iequals_iff, hlower.1, hlower.2]
  constructor
  · rintro ⟨f, hf, hname, token, htoken, hcovers⟩
    exact ⟨token, ⟨f, hf, hname, htoken, hnonempty (hcovers.symm.imp_left iequals_iff.2)⟩, hcovers.symm⟩
  · rintro ⟨token, ⟨f, hf, hname, htoken, -⟩, hcovers⟩
    exact ⟨f, hf, hname, token, htoken, hcovers.symm⟩

theorem otherNames_vary (h : Fields) : otherNames (varyAcceptEncoding h) = otherNames h := by
  rw [varyAcceptEncoding]
  split
  · rfl
  · exact otherNames_set h _

theorem covers_vary (h : Fields) (name : Bytes) : Covers (varyNames (varyAcceptEncoding h)) name ↔
    Covers (varyNames h) name ∨ iequals (bytes "Accept-Encoding") name := by
  rw [varyAcceptEncoding]
  split
  · next hvaries =>
    exact ⟨.inl, fun hc => hc.elim id (covers_trans (variesOnEncoding_iff.1 hvaries))⟩
  · have hfirst : namesOf ((if h.find (bytes "Vary") = [] then [] else h.find (bytes "Vary") ++ bytes ", ") ++
        bytes "Accept-Encoding") = firstNames h ++ [bytes "Accept-Encoding"] := by
      rw [firstNames_find]
      split
      · next hnone =>
        rw [hnone]
        decide
      · exact namesOf_append _
    have hsingle : Covers [bytes "Accept-Encoding"] name ↔ iequals (bytes "Accept-Encoding") name := by
      have hstar : bytes "Accept-Encoding" ≠ bytes "*" := by decide
      simp [Covers, hstar]
    rw [varyNames, firstNames_set, otherNames_set, hfirst, varyNames, covers_append, covers_append, covers_append, hsingle,
      or_right_comm]

end Names

section Steps
variable {response : Response} {name : Bytes}

/-- What decides about the compression is the same. -/
structure Alike (r r' : Response) : Prop where
  body : r'.body = r.body
  chunkedBody : r'.chunkedBody = r.chunkedBody
  fileBody : r'.fileBody = r.fileBody
  status : r'.status = r.status
  encoding : Response.named (bytes "Content-Encoding") r'.headers = Response.named (bytes "Content-Encoding") r.headers
  type : Response.named (bytes "Content-Type") r'.headers = Response.named (bytes "Content-Type") r.headers

theorem Alike.trans (h : Alike r r') (h' : Alike r' r'') : Alike r r'' where
  body := h'.body.trans h.body
  chunkedBody := h'.chunkedBody.trans h.chunkedBody
  fileBody := h'.fileBody.trans h.fileBody
  status := h'.status.trans h.status
  encoding := h'.encoding.trans h.encoding
  type := h'.type.trans h.type

theorem alike_set (r : Response) (hencoding : iequals name (bytes "Content-Encoding") = false)
    (htype : iequals name (bytes "Content-Type") = false) (value : Bytes) :
    Alike r { r with headers := r.headers.set name value } :=
  ⟨rfl, rfl, rfl, rfl, Response.named_set_other hencoding _ _, Response.named_set_other htype _ _⟩

theorem alike_setHeader (r : Response) (hencoding : iequals name (bytes "Content-Encoding") = false)
    (htype : iequals name (bytes "Content-Type") = false) (value : Bytes) : Alike r (r.setHeader name value) := by
  rw [Response.setHeader]
  split
  · exact ⟨rfl, rfl, rfl, rfl, rfl, rfl⟩
  · exact alike_set r hencoding htype value

theorem any_named (h : Fields) (name : Bytes) : (h.any fun f => iequals f.name name) = !(Response.named name h).isEmpty := by
  induction h with
  | nil => rfl
  | cons e h ih =>
    rw [List.any_cons]
    cases he : iequals e.name name with
    | true =>
      rw [Response.named_same he]
      rfl
    | false =>
      rw [Response.named_other he, ← ih]
      rfl

theorem Alike.coding (h : Alike r r') : coding r' = coding r := by
  rw [Gzip.coding, Gzip.coding, Response.find_own, Response.find_own, Response.own, Response.own, h.encoding]

theorem Alike.eligible (h : Alike r r') (opts : GzipCompressionOptions) :
    compressionEligible r' opts = compressionEligible r opts := by
  have htype : r'.headers.find (bytes "Content-Type") = r.headers.find (bytes "Content-Type") := by
    rw [Response.find_own, Response.find_own, Response.own, Response.own, h.type]
  rw [compressionEligible, compressionEligible, Response.hasChunkedBody, Response.hasChunkedBody, Response.hasFileBody,
    Response.hasFileBody, any_named, any_named, h.body, h.chunkedBody, h.fileBody, h.status, h.encoding, htype]

theorem alike_vary (r : Response) : Alike r { r with headers := varyAcceptEncoding r.headers } := by
  rw [varyAcceptEncoding]
  split
  · exact ⟨rfl, rfl, rfl, rfl, rfl, rfl⟩
  · exact alike_set r (by decide) (by decide) _

theorem named_payload (hlength : iequals (bytes "Content-Length") name = false)
    (htransfer : iequals (bytes "Transfer-Encoding") name = false) (r : Response) :
    Response.named name r.payloadHeaders = Response.named name r.headers := by
  rw [Response.payloadHeaders]
  split
  · rw [Response.named_erase_other hlength, Response.named_set_other htransfer]
  · rw [Response.named_set_other hlength]
  · split
    · rw [Response.named_erase_other hlength]
    · split
      · split
        · rw [Response.named_set_other hlength]
        · rfl
      · rw [Response.named_set_other hlength]

theorem named_applyCompressed (hlength : iequals (bytes "Content-Length") name = false)
    (htransfer : iequals (bytes "Transfer-Encoding") name = false) (r : Response) (compressed : Bytes) (chunked : Bool) :
    Response.named name (applyCompressed r compressed chunked).headers =
      Response.named name (r.headers.set (bytes "Content-Encoding") (bytes "gzip")) := by
  rw [applyCompressed, Response.preparePayload, if_neg Bool.false_ne_true]
  dsimp only
  rw [named_payload hlength htransfer]
  dsimp only
  split
  · rw [Response.named_set_other htransfer, Response.named_erase_other hlength, Response.named_erase_other htransfer]
  · rw [Response.named_erase_other hlength, Response.named_erase_other htransfer]

theorem varyNames_congr (h : Response.named (bytes "Vary") fs = Response.named (bytes "Vary") fs') :
    varyNames fs = varyNames fs' ∧ otherNames fs = otherNames fs' := by
  rw [varyNames, varyNames, firstNames, firstNames, otherNames, otherNames, h]
  exact ⟨rfl, rfl⟩

theorem varyNames_applyCompressed (r : Response) (compressed : Bytes) (chunked : Bool) :
    varyNames (applyCompressed r compressed chunked).headers = varyNames r.headers ∧
      otherNames (applyCompressed r compressed chunked).headers = otherNames r.headers := by
  apply varyNames_congr
  rw [named_applyCompressed (by decide) (by decide), Response.named_set_other (by decide)]

theorem coding_applyCompressed (r : Response) (compressed : Bytes) (chunked : Bool) :
    coding (applyCompressed r compressed chunked) = bytes "gzip" := by
  rw [coding, Response.find_own, Response.own, named_applyCompressed (by decide) (by decide), ← Response.own,
    ← Response.find_own, Fields.find_set_self]

theorem eligible_coded (h : coding r ≠ []) (opts : GzipCompressionOptions) : compressionEligible r opts = false := by
  have hany : (r.headers.any fun f => iequals f.name (bytes "Content-Encoding")) = true := by
    rw [any_named, Bool.not_eq_true']
    rw [coding, Response.find_own, Response.own] at h
    cases hnamed : Response.named (bytes "Content-Encoding") r.headers with
    | nil =>
      rw [hnamed] at h
      exact absurd rfl h
    | cons f fs => rfl
  rw [compressionEligible, hany]
  simp

theorem coding_eligible (h : compressionEligible r opts) : coding r = [] := by
  by_contra hcoding
  rw [eligible_coded hcoding] at h
  cases h

theorem otherNames_setHeader (r : Response) (hne : iequals name (bytes "Vary") = false) (value : Bytes) :
    varyNames (r.setHeader name value).headers = varyNames r.headers ∧
      otherNames (r.setHeader name value).headers = otherNames r.headers := by
  rw [Response.setHeader]
  split
  · exact ⟨rfl, rfl⟩
  · exact varyNames_congr (Response.named_set_other hne _ _)

theorem varyNames_setHeader_vary (r : Response) :
    varyNames (r.setHeader (bytes "Vary") (bytes "Origin")).headers = bytes "Origin" :: otherNames r.headers ∧
      otherNames (r.setHeader (bytes "Vary") (bytes "Origin")).headers = otherNames r.headers := by
  have hline : ¬(Response.containsCRLF (bytes "Vary") || Response.containsCRLF (bytes "Origin")) = true := by decide
  have hname : namesOf (bytes "Origin") = [bytes "Origin"] := by decide
  rw [Response.setHeader, if_neg hline, varyNames, firstNames_set, otherNames_set, hname]
  exact ⟨rfl, rfl⟩

/-- The common headers replace the first `Vary` field, and nothing that decides about the compression. -/
theorem applyCommonHeaders_spec (opts : CorsOptions) (origin : Bytes) (r : Response) :
    Alike r (opts.applyCommonHeaders origin r) ∧
      varyNames (opts.applyCommonHeaders origin r).headers = bytes "Origin" :: otherNames r.headers ∧
      otherNames (opts.applyCommonHeaders origin r).headers = otherNames r.headers := by
  let r₁ := r.setHeader (bytes "Access-Control-Allow-Origin") origin
  let r₂ := if opts.allowCredentials then r₁.setHeader (bytes "Access-Control-Allow-Credentials") (bytes "true") else r₁
  have h₁ : Alike r r₁ := alike_setHeader r (by decide) (by decide) _
  have hnames₁ : otherNames r₁.headers = otherNames r.headers := (otherNames_setHeader r (by decide) _).2
  have h₂ : Alike r r₂ ∧ otherNames r₂.headers = otherNames r.headers := by
    by_cases hcredentials : opts.allowCredentials
    · simp only [r₂, if_pos hcredentials]
      exact ⟨h₁.trans (alike_setHeader r₁ (by decide) (by decide) _),
        (otherNames_setHeader r₁ (by decide) _).2.trans hnames₁⟩
    · simp only [r₂, if_neg hcredentials]
      exact ⟨h₁, hnames₁⟩
  have hspec : opts.applyCommonHeaders origin r = r₂.setHeader (bytes "Vary") (bytes "Origin") := rfl
  obtain ⟨hnames, hother⟩ := varyNames_setHeader_vary r₂
  rw [hspec, hnames, hother, h₂.2]
  exact ⟨h₂.1.trans (alike_setHeader r₂ (by decide) (by decide) _), rfl, rfl⟩

theorem cors_passes (hallows : opts.allows request = false) (next : Request → Response) :
    makeCorsMiddleware opts request next = next request := by
  rw [makeCorsMiddleware, hallows, if_neg Bool.false_ne_true]

theorem cors_answers (hallows : opts.allows request = true) (hpre : isPreflight request = true) (next : Request → Response) :
    makeCorsMiddleware opts request next = preflightResponse opts (request.headers.find (bytes "Origin")) := by
  rw [makeCorsMiddleware, hallows, hpre, if_pos rfl, if_pos rfl]

theorem cors_spec (hallows : opts.allows request = true) (hpre : isPreflight request = false) (next : Request → Response) :
    Alike (next request) (makeCorsMiddleware opts request next) ∧
      varyNames (makeCorsMiddleware opts request next).headers = bytes "Origin" :: otherNames (next request).headers ∧
      otherNames (makeCorsMiddleware opts request next).headers = otherNames (next request).headers := by
  obtain ⟨halike, hnames, hother⟩ := applyCommonHeaders_spec opts (request.headers.find (bytes "Origin")) (next request)
  rw [makeCorsMiddleware, hallows, hpre, if_pos rfl, if_neg Bool.false_ne_true]
  dsimp only
  split
  · exact ⟨halike.trans (alike_setHeader _ (by decide) (by decide) _),
      (otherNames_setHeader _ (by decide) _).1.trans hnames, (otherNames_setHeader _ (by decide) _).2.trans hother⟩
  · exact ⟨halike, hnames, hother⟩

end Steps

section Stack
variable {compressBytes : Bytes → Nat → Bool → Bytes} {protocol : HttpProtocol}
variable {request : Request} {response : Response} {layers : List Layer}

/-- What the compressing middleware does to a response. -/
structure Gzipped (request : Request) (opts : GzipCompressionOptions) (r r' : Response) : Prop where
  untouched : compressionEligible r opts = false → r' = r
  covers : compressionEligible r opts → ∀ name,
    (Covers (varyNames r'.headers) name ↔ Covers (varyNames r.headers) name ∨ iequals (bytes "Accept-Encoding") name)
  other : otherNames r'.headers = otherNames r.headers
  refused : acceptsGzip request = false → Alike r r'
  coded : compressionEligible r opts → acceptsGzip request → coding r' = bytes "gzip"

theorem gzipped (compressBytes : Bytes → Nat → Bool → Bytes) (protocol : HttpProtocol) (request : Request)
    (opts : GzipCompressionOptions) (r : Response) : Gzipped request opts r
    (Id.run (makeGzipCompressionMiddleware (fun body level chunked => pure (compressBytes body level chunked)) opts protocol
      request r)) := by
  rw [makeGzipCompressionMiddleware]
  cases heligible : compressionEligible r opts with
  | false =>
    rw [if_neg Bool.false_ne_true]
    exact ⟨fun _ => rfl, fun h => absurd (heligible.symm.trans h) Bool.false_ne_true, rfl, fun _ => ⟨rfl, rfl, rfl, rfl, rfl, rfl⟩,
      fun h => absurd (heligible.symm.trans h) Bool.false_ne_true⟩
  | true =>
    rw [if_pos rfl]
    cases haccepts : acceptsGzip request with
    | false =>
      rw [if_neg Bool.false_ne_true]
      exact ⟨fun h => absurd (heligible.symm.trans h).symm Bool.false_ne_true, fun _ => covers_vary r.headers,
        otherNames_vary r.headers, fun _ => alike_vary r, fun _ h => absurd (haccepts.symm.trans h) Bool.false_ne_true⟩
    | true =>
      rw [if_pos rfl]
      let varied : Response := { r with headers := varyAcceptEncoding r.headers }
      refine ⟨fun h => absurd (heligible.symm.trans h).symm Bool.false_ne_true, fun _ name => ?_,
        (varyNames_applyCompressed varied _ _).2.trans (otherNames_vary r.headers), fun h => absurd (haccepts.symm.trans h).symm Bool.false_ne_true,
        fun _ _ => coding_applyCompressed varied _ _⟩
      change Covers (varyNames (applyCompressed varied _ _).headers) name ↔ _
      rw [(varyNames_applyCompressed varied _ _).1]
      exact covers_vary r.headers name

theorem decides_cors : Decides response (.cors opts :: layers) ↔ Decides response layers := by
  simp [Decides]

theorem decides_gzip : Decides response (.gzip opts :: layers) ↔
    compressionEligible response opts ∨ Decides response layers := by
  simp [Decides, or_and_right, exists_or]

theorem allowed_cors : Allowed request (.cors opts :: layers) ↔ opts.allows request ∨ Allowed request layers := by
  simp [Allowed, or_and_right, exists_or]

theorem allowed_gzip : Allowed request (.gzip opts :: layers) ↔ Allowed request layers := by
  simp [Allowed]

/-- What a stack that calls the handler keeps of its response, and what it decides by. -/
structure Ran (request : Request) (layers : List Layer) (r r' : Response) : Prop where
  other : otherNames r'.headers = otherNames r.headers
  eligible : ∀ opts, compressionEligible r' opts ↔
    compressionEligible r opts ∧ ¬(acceptsGzip request ∧ Decides r layers)
  coded : acceptsGzip request → Decides r layers → coding r' = bytes "gzip"
  uncoded : ¬(acceptsGzip request ∧ Decides r layers) → coding r' = coding r

theorem Ran.gzip (h : Ran request layers r r₁) (hg : Gzipped request opts r₁ r') :
    Ran request (.gzip opts :: layers) r r' := by
  have hopts := h.eligible opts
  have hdecides : Decides r (.gzip opts :: layers) ↔ compressionEligible r opts ∨ Decides r layers := decides_gzip
  cases heligible : compressionEligible r₁ opts with
  | false =>
    rw [hg.untouched heligible]
    rw [heligible] at hopts
    have hsame : acceptsGzip request ∧ Decides r (.gzip opts :: layers) ↔ acceptsGzip request ∧ Decides r layers := by
      rw [hdecides]
      grind
    refine ⟨h.other, fun o => ?_, fun ha hd => ?_, fun hd => ?_⟩
    · rw [hsame]
      exact h.eligible o
    · exact h.coded ha (hsame.1 ⟨ha, hd⟩).2
    · exact h.uncoded (hsame.not.1 hd)
  | true =>
    obtain ⟨hfirst, hnot⟩ := hopts.1 heligible
    have hdec : Decides r (.gzip opts :: layers) := hdecides.2 (.inl hfirst)
    cases haccepts : acceptsGzip request with
    | false =>
      have halike := hg.refused haccepts
      have hno (P : Prop) : ¬(false = true ∧ P) := fun hp => Bool.false_ne_true hp.1
      refine ⟨hg.other.trans h.other, fun o => ?_, fun ha => ?_, fun _ => ?_⟩
      · rw [halike.eligible o, h.eligible o, haccepts, and_iff_left (hno _), and_iff_left (hno _)]
      · exact absurd (haccepts.symm.trans ha) Bool.false_ne_true
      · exact halike.coding.trans (h.uncoded hnot)
    | true =>
      have hcoded := hg.coded heligible haccepts
      refine ⟨hg.other.trans h.other, fun o => ?_, fun _ _ => hcoded, fun hd => absurd ⟨haccepts, hdec⟩ hd⟩
      rw [eligible_coded (by rw [hcoded]; decide), haccepts]
      exact ⟨fun hf => absurd hf Bool.false_ne_true, fun hf => absurd ⟨rfl, hdec⟩ hf.2⟩

theorem ran (compressBytes : Bytes → Nat → Bool → Bytes) (protocol : HttpProtocol) (response : Response)
    (h : ¬Answered request layers) :
    Ran request layers response (respond compressBytes protocol request response layers) := by
  induction layers with
  | nil =>
    have hnone : ¬Decides response [] := nofun
    exact ⟨rfl, fun opts => (and_iff_left fun hd => hnone hd.2).symm, fun _ hd => absurd hd hnone, fun _ => rfl⟩
  | cons layer layers ih =>
    cases layer with
    | gzip opts =>
      have hrest : ¬Answered request layers := fun ha => h ⟨ha.1, allowed_gzip.2 ha.2⟩
      exact (ih hrest).gzip (gzipped _ _ _ opts _)
    | cors opts =>
      have hrest : ¬Answered request layers := fun ha => h ⟨ha.1, allowed_cors.2 (.inr ha.2)⟩
      have hran := ih hrest
      rw [respond]
      cases hallows : opts.allows request with
      | false =>
        rw [cors_passes hallows]
        exact ⟨hran.other, fun o => by rw [hran.eligible, decides_cors], fun ha hd => hran.coded ha (decides_cors.1 hd),
          fun hd => hran.uncoded (by rw [← decides_cors]; exact hd)⟩
      | true =>
        have hpre : isPreflight request = false := by
          rw [← Bool.not_eq_true]
          exact fun hpre => h ⟨hpre, allowed_cors.2 (.inl hallows)⟩
        obtain ⟨halike, -, hother⟩ := cors_spec hallows hpre
          (fun request => respond compressBytes protocol request response layers)
        refine ⟨hother.trans hran.other, fun o => ?_, fun ha hd => ?_, fun hd => ?_⟩
        · rw [halike.eligible o, hran.eligible o, decides_cors]
        · exact halike.coding.trans (hran.coded ha (decides_cors.1 hd))
        · exact halike.coding.trans (hran.uncoded (by rw [← decides_cors]; exact hd))

theorem allowOrigin_respond (compressBytes : Bytes → Nat → Bool → Bytes) (protocol : HttpProtocol) (response : Response)
    (h : ¬Allowed request layers) : allowOrigin (respond compressBytes protocol request response layers) = allowOrigin response := by
  induction layers with
  | nil => rfl
  | cons layer layers ih =>
    cases layer with
    | cors opts =>
      rw [allowed_cors, not_or, Bool.not_eq_true] at h
      rw [respond, cors_passes h.1, ih h.2]
    | gzip opts =>
      rw [allowed_gzip] at h
      rw [respond, ← ih h]
      generalize respond compressBytes protocol request response layers = r
      have hvaried : Response.named (bytes "Access-Control-Allow-Origin") (varyAcceptEncoding r.headers) =
          Response.named (bytes "Access-Control-Allow-Origin") r.headers := by
        rw [varyAcceptEncoding]
        split
        · rfl
        · exact Response.named_set_other (by decide) _ _
      have hnamed : Response.named (bytes "Access-Control-Allow-Origin") (Id.run (makeGzipCompressionMiddleware
          (fun body level chunked => pure (compressBytes body level chunked)) opts protocol request r)).headers =
            Response.named (bytes "Access-Control-Allow-Origin") r.headers := by
        rw [makeGzipCompressionMiddleware]
        split
        · split
          · exact (named_applyCompressed (by decide) (by decide) _ _ _).trans
              ((Response.named_set_other (by decide) _ _).trans hvaried)
          · exact hvaried
        · rfl
      rw [allowOrigin, allowOrigin, Response.find_own, Response.find_own, Response.own, Response.own, hnamed]

theorem OriginDepends.allowed (h : OriginDepends compressBytes protocol request response layers) : Allowed request layers := by
  by_contra hnone
  apply h
  rw [allowOrigin_respond _ _ _ hnone, allowOrigin_respond]
  rintro ⟨opts, -, hallows⟩
  rw [CorsOptions.allows, Fields.find_set_self] at hallows
  cases hallows

theorem alike_preflight (opts : CorsOptions) (origin : Bytes) :
    Alike (({} : Response).setStatus .hNoContent) (preflightResponse opts origin) := by
  rw [preflightResponse]
  refine Alike.trans ?_ (alike_setHeader _ (by decide) (by decide) _)
  refine Alike.trans ?_ (alike_setHeader _ (by decide) (by decide) _)
  refine Alike.trans ?_ (alike_setHeader _ (by decide) (by decide) _)
  exact (applyCommonHeaders_spec opts origin _).1

/-- However many middlewares compress, a response has its handler's body, or none, or what one of them makes of that. -/
theorem compressed_once (layers : List Layer) :
    let r := respond compressBytes protocol request response layers
    r.body = [] ∨ r.body = response.body ∨ coding r = bytes "gzip" ∧ ∃ opts, .gzip opts ∈ layers ∧
      r.body = compressBytes response.body opts.compressionLevel (streams opts protocol response.body) := by
  dsimp only
  induction layers with
  | nil => exact .inr (.inl rfl)
  | cons layer layers ih =>
    cases layer with
    | cors opts =>
      rw [respond]
      cases hallows : opts.allows request with
      | false => grind [cors_passes hallows]
      | true =>
        cases hpre : isPreflight request with
        | true =>
          rw [cors_answers hallows hpre]
          exact .inl (alike_preflight opts _).body
        | false =>
          have halike := (cors_spec hallows hpre fun request => respond compressBytes protocol request response layers).1
          grind [halike.body, halike.coding]
    | gzip opts =>
      rw [respond]
      generalize respond compressBytes protocol request response layers = r at ih ⊢
      have hg := gzipped compressBytes protocol request opts r
      cases heligible : compressionEligible r opts with
      | false => grind [hg.untouched heligible]
      | true =>
        cases haccepts : acceptsGzip request with
        | false => grind [(hg.refused haccepts).body, (hg.refused haccepts).coding]
        | true =>
          have hcoded := hg.coded heligible haccepts
          have huncoded := coding_eligible heligible
          have hne : r.body ≠ [] := by
            intro hnil
            rw [compressionEligible, hnil] at heligible
            cases heligible
          -- what is eligible has no coding, so that nothing has compressed it yet
          have hgzip : bytes "gzip" ≠ [] := by decide
          have hbody : r.body = response.body := by grind
          rw [makeGzipCompressionMiddleware, if_pos heligible, if_pos haccepts] at hcoded ⊢
          exact .inr (.inr ⟨hcoded, opts, List.mem_cons_self, hbody ▸ rfl⟩)

end Stack

end Hical.Gzip
