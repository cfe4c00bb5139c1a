import Hical.Response.OwnFields
import Hical.Session.Writes
import Hical.StaticFiles.Handler

namespace Hical.Response
open ResponseClient

section Setters

/-- `setBody` without a content type. -/
def setBodyOnly (r : Response) (body : Bytes) : Response :=
  preparePayload { r with payloadPrepared := false, body := body }

def setJsonBody (r : Response) (text : Bytes) : Response :=
  preparePayload { r with
    payloadPrepared := false, body := text,
    headers := r.headers.set (bytes "Content-Type") (bytes "application/json") }

/-- An `int64_t` is prepared and read as an unsigned number. -/
def unsigned64 (n : Int) : Nat := (n % 2 ^ 64).toNat

def chunked (calls : List ChunkedBody.Call) : Response :=
  { setStatus {} .hOk with
    chunkedBody := some (ChunkedBody.collect calls).toChunkedBody
    headers := Fields.set [] (bytes "Content-Type") (bytes "text/plain; charset=utf-8") }

def ok (body contentType : Bytes) : Response := (setStatus {} .hOk).setBody body contentType

def okText (body : Bytes) : Response :=
  if body = [] then setStatus {} .hOk
  else (setStatus {} .hOk).setBody body (bytes "text/plain; charset=utf-8")

def json (text : Bytes) : Response := (setStatus {} .hOk).setJsonBody text

def jsonFrom (text : Bytes) : Response :=
  ((setStatus {} .hOk).setHeader (bytes "Content-Type") (bytes "application/json")).setBodyOnly text

def redirect (location : Bytes) (code : HttpStatusCode) : Response :=
  ((setStatus {} code).setHeader (bytes "Location") location).setBodyOnly []

/-- The responses that the setters and factories build. -/
inductive Built : Response → Prop
  | new : Built {}
  | chunked (calls : List ChunkedBody.Call) : Built (chunked calls)
  | setStatus (h : Built r) (code : HttpStatusCode) : Built (r.setStatus code)
  | setHeader (h : Built r) (name value : Bytes) : Built (r.setHeader name value)
  | setBodyOnly (h : Built r) (body : Bytes) : Built (r.setBodyOnly body)
  | setBody (h : Built r) (body contentType : Bytes) : Built (r.setBody body contentType)
  | setJsonBody (h : Built r) (text : Bytes) : Built (r.setJsonBody text)
  | setFileBody (h : Built r) (path : Bytes) (offset length : Int) (contentType : Bytes) :
    Built (r.setFileBody path (unsigned64 offset) (unsigned64 length) contentType)

theorem built_plainText (code : HttpStatusCode) (body : Bytes) : Built (plainText code body).noSniff := by
  rw [noSniff, plainText]
  exact .setHeader (.setBody (.setStatus .new _) _ _) _ _

theorem built_factories (body contentType text location message : Bytes) (code : HttpStatusCode) (fileSize : Nat) :
    Built (ok body contentType) ∧ Built (okText body) ∧ Built (json text) ∧ Built (jsonFrom text) ∧ Built notFound ∧
      Built (badRequest message) ∧ Built serverError ∧ Built (redirect location code) ∧
      Built (rangeNotSatisfiable fileSize) := by
  refine ⟨?_, ?_, ?_, ?_, ?_, ?_, ?_, ?_, ?_⟩
  · exact .setBody (.setStatus .new _) _ _
  · rw [okText]
    split
    · exact .setStatus .new _
    · exact .setBody (.setStatus .new _) _ _
  · exact .setJsonBody (.setStatus .new _) _
  · exact .setBodyOnly (.setHeader (.setStatus .new _) _ _) _
  · exact built_plainText ..
  · exact built_plainText ..
  · exact built_plainText ..
  · exact .setBodyOnly (.setHeader (.setStatus .new _) _ _) _
  · exact .setBody (.setHeader (.setStatus .new _) _ _) _ _

end Setters

/-- The header fields allow a client to read the response. -/
structure Sound (r : Response) : Prop where
  version : r.httpVersionMinor = 1
  clean : Clean r.headers
  length : Unique contentLengthName r.headers
  coding : Unique transferEncodingName r.headers

section Preparing
variable {r : Response}

theorem Sound.with (hr : Sound r) (hversion : r'.httpVersionMinor = r.httpVersionMinor)
    (hheaders : r'.headers = r.headers.set name value) (hname : containsCRLF name = false)
    (hvalue : containsCRLF value = false) : Sound r' := by
  refine ⟨hversion.trans hr.version, ?_, ?_, ?_⟩
  · rw [hheaders]
    exact hr.clean.set hname hvalue
  · rw [hheaders]
    exact hr.length.set _ _
  · rw [hheaders]
    exact hr.coding.set _ _

theorem Sound.without (hr : Sound r) (name : Bytes) : Sound { r with headers := r.headers.erase name } :=
  ⟨hr.version, hr.clean.erase _, hr.length.erase _, hr.coding.erase _⟩

theorem Sound.headers (hr : Sound r) (hversion : r'.httpVersionMinor = r.httpVersionMinor)
    (hheaders : r'.headers = r.headers) : Sound r' :=
  ⟨hversion.trans hr.version, hheaders ▸ hr.clean, hheaders ▸ hr.length, hheaders ▸ hr.coding⟩

def sentLength (r : Response) : Option Bytes := own contentLengthName r.preparePayload.headers

end Preparing

section Wire

def statusText (r : Response) : Bytes :=
  bytes "HTTP/1.1 " ++ decimal r.status.code ++ [SP] ++ httpStatusCodeToString r.status

/-- The two fields tell the content. -/
def Declares (isHead : Bool) (content : Bytes) (length coding : Option Bytes) : Prop :=
  (coding = none ∧ ∃ value n, length = some value ∧ decimalValue (fieldValue value) = some n ∧
    (isHead = true ∨ content.length = n)) ∨
  (length = none ∧ ∃ value, coding = some value ∧ iequals (fieldValue value) (bytes "chunked") = true ∧
    (isHead = true ∨ ∃ data, DecodesTo content data))

end Wire

/-- What a response has to be for its head to tell its content: no header name goes with a colon for one of
the two fields. A 204 or 304 has no content, and no length but zero is left from before. Otherwise, what was set
since the payload was prepared tells the content; or the payload is yet to be prepared, a file is not chunked, is
as long as it is said to be and has no Transfer-Encoding, and a plain body has none either unless it is in the
chunked coding. -/
def Framed (r : Response) (isHead : Bool) (content : Bytes) : Prop :=
  ¬ Hides contentLengthName r.headers ∧
    if r.status.code = 204 ∨ r.status.code = 304 then
      (isHead = true ∨ content = []) ∧ ∀ value ∈ sentLength r, decimalValue (fieldValue value) = some 0
    else ¬ Hides transferEncodingName r.headers ∧
      if r.payloadPrepared = true then
        Declares isHead content (own contentLengthName r.headers) (own transferEncodingName r.headers)
      else
        match r.chunkedBody, r.fileBody with
        | some _, _ => isHead = true ∨ ∃ data, DecodesTo content data
        | none, some fb => own transferEncodingName r.headers = none ∧ (isHead = true ∨ content.length = fb.length)
        | none, none =>
          own transferEncodingName r.headers = none ∨
            (iequals (r.headers.find transferEncodingName) (bytes "chunked") = true ∧
              (isHead = true ∨ ∃ data, DecodesTo content data))

section Framed
variable {r : Response}

theorem fieldValue_eq (h : ∀ b ∈ s, isBlank b = false) : fieldValue s = s := by
  have hdrop : ∀ s : Bytes, (∀ b ∈ s, isBlank b = false) → s.dropWhile isBlank = s := by
    intro s h
    cases s with
    | nil => rfl
    | cons b s => exact List.dropWhile_cons_of_neg (by rw [h b (List.mem_cons_self ..)]; decide)
  rw [fieldValue, trimWith, hdrop s h, hdrop s.reverse (fun b hb => h b (List.mem_reverse.1 hb)), List.reverse_reverse]

theorem fieldValue_decimal (n : Nat) : fieldValue (decimal n) = decimal n := by
  apply fieldValue_eq
  intro b hb
  have hdigit := (decimal_digits n).2.1 b hb
  rw [isDecimal, Bool.and_eq_true, decide_eq_true_eq, decide_eq_true_eq] at hdigit
  rw [isBlank, Bool.or_eq_false_iff]
  refine ⟨beq_false_of_ne ?_, beq_false_of_ne ?_⟩
  · rintro rfl
    revert hdigit
    decide
  · rintro rfl
    revert hdigit
    decide

end Framed

section Answers
variable {r : Response}

end Answers

section Sending
variable (w : World) {r : Response}

/-- What is sent of a file; a negative length ends the write behind the head. -/
def fileContent (fb : FileBody) : Bytes :=
  if fb.length < 2 ^ 63 then fileBytes w fb.path fb.length fb.offset fb.length else []

def answer (r : Response) (common : Bytes) (isHead : Bool) : Option Bytes :=
  match r.fileBody with
  | some fb =>
    if isHead then some (responseWire r common isHead)
    else if w.fileOpens fb.path then some (r.preparePayload.serializeHeadTo common ++ fileContent w fb)
    else none
  | none => some (responseWire r common isHead)

/-- It is what the session records and writes, where a file has a length at all. -/
theorem answer_bodyWire {common : Bytes} (hfile : ∀ fb ∈ r.fileBody, fb.length < 2 ^ 63)
    (h : answer w r common isHead = some wire) : bodyWire w r common isHead = wire := by
  rw [answer] at h
  rw [bodyWire]
  cases hbody : r.fileBody with
  | none =>
    rw [hbody] at h
    exact Option.some.inj h
  | some fb =>
    rw [hbody] at h
    dsimp only at h ⊢
    cases isHead with
    | true => exact Option.some.inj h
    | false =>
      rw [if_neg Bool.false_ne_true] at h ⊢
      split at h
      · next hopens =>
        rw [fileWire, if_pos hopens, ← Option.some.inj h, fileContent, if_pos (hfile fb hbody)]
      · cases h

end Sending

end Hical.Response
