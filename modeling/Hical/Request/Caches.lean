import Hical.Lib.Runs
import Hical.Request.Parsing

namespace Hical

/-- `HttpRequest` with its lazily filled caches. -/
structure HttpRequest (J : Type) where
  native : Request
  ownedHeaders : Fields := []
  cookies : Option ParamList := none
  cachedJsonBody : Option J := none
  queryParams : Option ParamList := none
  formParams : Option ParamList := none

/-- What the request takes from elsewhere: the JSON parser, its null, and which value of a name
`unordered_multimap::find` gives. -/
structure Parsers (J : Type) where
  parse : Bytes → Option J
  null : J
  find : ParamList → Bytes → Option Bytes

/-- The members that read. -/
inductive Reader where
  | cookies
  | cookie (name : Bytes)
  | hasCookie (name : Bytes)
  | jsonBody
  | queryParams
  | queryParam (name : Bytes)
  | hasQueryParam (name : Bytes)
  | formParams
  | formParam (name : Bytes)
  | hasFormParam (name : Bytes)

/-- The members that change the target, the headers or the body; `storeBody` is the HTTP/1 session, which
writes the body of the native request. -/
inductive Writer where
  | setTarget (target : Bytes)
  | setHeader (name value : Bytes)
  | setBody (body : Bytes)
  | storeBody (body : Bytes)
  | acceptBody (body : Bytes)

inductive Answer (J : Type) where
  | params (m : ParamList)
  | text (s : Bytes)
  | found (s : Option Bytes)
  | has (b : Bool)
  | json (v : J)

namespace HttpRequest
open Request
variable (p : Parsers J)

def kMaxHeaders : Nat := 64

def fromParsed (req : Request) : HttpRequest J := { native := req }

def parsedJson (req : Request) : J := (p.parse req.body).getD p.null

def needCookies (s : HttpRequest J) : HttpRequest J :=
  { s with cookies := some (s.cookies.getD s.native.parseCookies) }

def needJsonBody (s : HttpRequest J) : HttpRequest J :=
  { s with cachedJsonBody := some (s.cachedJsonBody.getD (parsedJson p s.native)) }

def needQueryParams (s : HttpRequest J) : HttpRequest J :=
  { s with queryParams := some (s.queryParams.getD s.native.parseQueryParams) }

def needFormParams (s : HttpRequest J) : HttpRequest J :=
  { s with formParams := some (s.formParams.getD s.native.parseFormParams) }

def fill (s : HttpRequest J) : Reader → HttpRequest J
  | .cookies | .cookie _ | .hasCookie _ => s.needCookies
  | .jsonBody => s.needJsonBody p
  | .queryParams | .queryParam _ | .hasQueryParam _ => s.needQueryParams
  | .formParams | .formParam _ | .hasFormParam _ => s.needFormParams

def answer (cookies : ParamList) (json : J) (query form : ParamList) : Reader → Answer J
  | .cookies => .params cookies
  | .cookie name => .text ((lookup cookies name).getD [])
  | .hasCookie name => .has (lookup cookies name).isSome
  | .jsonBody => .json json
  | .queryParams => .params query
  | .queryParam name => .found (p.find query name)
  | .hasQueryParam name => .has (query.any (·.1 == name))
  | .formParams => .params form
  | .formParam name => .found (p.find form name)
  | .hasFormParam name => .has (form.any (·.1 == name))

/-- What a read returns: it looks into the cache that it has filled. -/
def read (s : HttpRequest J) (r : Reader) : Answer J :=
  let s := s.fill p r
  answer p (s.cookies.getD []) (s.cachedJsonBody.getD p.null) (s.queryParams.getD []) (s.formParams.getD []) r

def current (s : HttpRequest J) (r : Reader) : Answer J :=
  answer p s.native.parseCookies (parsedJson p s.native) s.native.parseQueryParams s.native.parseFormParams r

/-- The headers are taken over from `ownedHeaders_`. -/
def syncHeaders (s : HttpRequest J) : HttpRequest J :=
  { s with native := { s.native with headers := s.ownedHeaders.take kMaxHeaders } }

def setTarget (s : HttpRequest J) (target : Bytes) : HttpRequest J :=
  { s with native := { s.native with target } }

def setHeader (s : HttpRequest J) (name value : Bytes) : HttpRequest J :=
  if Response.containsCRLF name || Response.containsCRLF value then s
  else
    let s := syncHeaders { s with ownedHeaders := s.ownedHeaders.set name value }
    { s with native := { s.native with upgradePreScanned := none } }

def storeBody (s : HttpRequest J) (body : Bytes) : HttpRequest J :=
  { s with native := { s.native with body } }

def setBody (s : HttpRequest J) (body : Bytes) : HttpRequest J :=
  let s := s.storeBody body
  syncHeaders { s with ownedHeaders := s.ownedHeaders.set (bytes "Content-Length") (decimal body.length) }

def acceptBody (s : HttpRequest J) (body : Bytes) : HttpRequest J :=
  { s.storeBody body with cachedJsonBody := none, formParams := none }

def write (s : HttpRequest J) : Writer → HttpRequest J
  | .setTarget target => s.setTarget target
  | .setHeader name value => s.setHeader name value
  | .setBody body => s.setBody body
  | .storeBody body => s.storeBody body
  | .acceptBody body => s.acceptBody body

inductive Call where
  | read (r : Reader)
  | write (w : Writer)

def call (s : HttpRequest J) : Call → HttpRequest J
  | .read r => s.fill p r
  | .write w => s.write w

/-- A cache that is empty or holds the value. -/
def Holds {V : Type} (cache : Option V) (v : V) : Prop := ∀ w, cache = some w → w = v

/-- The filled caches hold the parse of what the request holds. -/
structure Coherent (s : HttpRequest J) : Prop where
  cookies : Holds s.cookies s.native.parseCookies
  json : Holds s.cachedJsonBody (parsedJson p s.native)
  query : Holds s.queryParams s.native.parseQueryParams
  form : Holds s.formParams s.native.parseFormParams

section Conditions
variable (s : HttpRequest J) (req : Request)

def KeepsCookies : Prop := s.cookies.isSome → req.parseCookies = s.native.parseCookies

def KeepsJson : Prop := s.cachedJsonBody.isSome → parsedJson p req = parsedJson p s.native

def KeepsQuery : Prop := s.queryParams.isSome → req.parseQueryParams = s.native.parseQueryParams

def KeepsForm : Prop := s.formParams.isSome → req.parseFormParams = s.native.parseFormParams

/-- What the request will hold after the call parses as before wherever a cache is filled; `acceptBody`
empties the caches of the body. -/
def Keeps : Call → Prop
  | .read _ => True
  | .write (.setTarget target) => s.KeepsQuery { s.native with target }
  | .write (.setHeader name value) =>
    (Response.containsCRLF name || Response.containsCRLF value) = true ∨
      let req := { s.native with headers := (s.ownedHeaders.set name value).take kMaxHeaders }
      s.KeepsCookies req ∧ s.KeepsForm req
  | .write (.setBody body) =>
    let headers := (s.ownedHeaders.set (bytes "Content-Length") (decimal body.length)).take kMaxHeaders
    let req := { s.native with body, headers }
    s.KeepsCookies req ∧ s.KeepsJson p req ∧ s.KeepsForm req
  | .write (.storeBody body) =>
    let req := { s.native with body }
    s.KeepsJson p req ∧ s.KeepsForm req
  | .write (.acceptBody _) => True

end Conditions

section Caching
variable {V : Type} {cache : Option V} {v : V}

theorem Holds.none (v : V) : Holds none v := fun _ h => nomatch h

theorem holds_iff_getD : Holds cache v ↔ cache.getD v = v := by
  cases cache with
  | none => exact ⟨fun _ => rfl, fun _ => .none v⟩
  | some w => exact ⟨fun h => h w rfl, fun h u hu => Option.some.inj hu ▸ h⟩

theorem Holds.fill (h : Holds cache v) : Holds (some (cache.getD v)) v := by
  intro w hw
  rw [← Option.some.inj hw]
  exact holds_iff_getD.1 h

theorem Holds.update (h : Holds cache v) (v' : V) : Holds cache v' ↔ (cache.isSome → v' = v) := by
  cases cache with
  | none => exact iff_of_true (.none v') fun hsome => nomatch hsome
  | some w =>
    have hw : w = v := h w rfl
    subst hw
    constructor
    · intro h' _
      exact (h' w rfl).symm
    · intro heq u hu
      rw [heq rfl]
      exact (Option.some.inj hu).symm

end Caching

variable {p} {s : HttpRequest J}

/-- A coherent request answers as it stands, and one that answers so is coherent. -/
theorem read_eq_current_iff : (∀ r, s.read p r = s.current p r) ↔ s.Coherent p := by
  constructor
  · intro h
    constructor
    · exact holds_iff_getD.2 (Answer.params.inj (h .cookies))
    · exact holds_iff_getD.2 (Answer.json.inj (h .jsonBody))
    · exact holds_iff_getD.2 (Answer.params.inj (h .queryParams))
    · exact holds_iff_getD.2 (Answer.params.inj (h .formParams))
  · intro h r
    have hcookies := holds_iff_getD.1 h.cookies
    have hjson := holds_iff_getD.1 h.json
    have hquery := holds_iff_getD.1 h.query
    have hform := holds_iff_getD.1 h.form
    cases r with
    | cookies | cookie | hasCookie =>
      simp only [read, current, fill, needCookies, answer, Option.getD_some, hcookies]
    | jsonBody => simp only [read, current, fill, needJsonBody, answer, Option.getD_some, hjson]
    | queryParams | queryParam | hasQueryParam =>
      simp only [read, current, fill, needQueryParams, answer, Option.getD_some, hquery]
    | formParams | formParam | hasFormParam =>
      simp only [read, current, fill, needFormParams, answer, Option.getD_some, hform]

theorem Coherent.fill (h : s.Coherent p) (r : Reader) : (s.fill p r).Coherent p := by
  cases r with
  | cookies | cookie | hasCookie => exact ⟨h.cookies.fill, h.json, h.query, h.form⟩
  | jsonBody => exact ⟨h.cookies, h.json.fill, h.query, h.form⟩
  | queryParams | queryParam | hasQueryParam => exact ⟨h.cookies, h.json, h.query.fill, h.form⟩
  | formParams | formParam | hasFormParam => exact ⟨h.cookies, h.json, h.query, h.form.fill⟩

theorem Coherent.call_iff (h : s.Coherent p) (c : Call) : (s.call p c).Coherent p ↔ s.Keeps p c := by
  cases c with
  | read r => exact iff_of_true (h.fill r) trivial
  | write w =>
    cases w with
    | setTarget target =>
      have hquery := h.query.update (parseQueryParams { s.native with target })
      constructor
      · intro h'
        exact hquery.1 h'.query
      · intro hkeeps
        exact ⟨h.cookies, h.json, hquery.2 hkeeps, h.form⟩
    | setHeader name value =>
      by_cases hcrlf : (Response.containsCRLF name || Response.containsCRLF value) = true
      · have hcall : s.call p (.write (.setHeader name value)) = s := if_pos hcrlf
        rw [hcall]
        exact iff_of_true h (.inl hcrlf)
      · let headers := (s.ownedHeaders.set name value).take kMaxHeaders
        have hcookies := h.cookies.update (parseCookies { s.native with headers })
        have hform := h.form.update (parseFormParams { s.native with headers })
        have hcall : s.call p (.write (.setHeader name value)) = { s with
            ownedHeaders := s.ownedHeaders.set name value
            native := { s.native with headers, upgradePreScanned := none } } := if_neg hcrlf
        rw [hcall]
        constructor
        · intro h'
          exact .inr ⟨hcookies.1 h'.cookies, hform.1 h'.form⟩
        · intro hkeeps
          obtain ⟨hc, hf⟩ := hkeeps.resolve_left hcrlf
          exact ⟨hcookies.2 hc, h.json, h.query, hform.2 hf⟩
    | setBody body =>
      let headers := (s.ownedHeaders.set (bytes "Content-Length") (decimal body.length)).take kMaxHeaders
      have hcookies := h.cookies.update (parseCookies { s.native with body, headers })
      have hjson := h.json.update (parsedJson p { s.native with body, headers })
      have hform := h.form.update (parseFormParams { s.native with body, headers })
      constructor
      · intro h'
        exact ⟨hcookies.1 h'.cookies, hjson.1 h'.json, hform.1 h'.form⟩
      · rintro ⟨hc, hj, hf⟩
        exact ⟨hcookies.2 hc, hjson.2 hj, h.query, hform.2 hf⟩
    | storeBody body =>
      have hjson := h.json.update (parsedJson p { s.native with body })
      have hform := h.form.update (parseFormParams { s.native with body })
      constructor
      · intro h'
        exact ⟨hjson.1 h'.json, hform.1 h'.form⟩
      · rintro ⟨hj, hf⟩
        exact ⟨h.cookies, hjson.2 hj, h.query, hform.2 hf⟩
    | acceptBody body => exact iff_of_true ⟨h.cookies, .none _, h.query, .none _⟩ trivial

theorem coherent_fromParsed (req : Request) : (fromParsed req : HttpRequest J).Coherent p :=
  ⟨.none _, .none _, .none _, .none _⟩

/-- In every state of a run each read returns the parse of the current target, headers and body, exactly
when no call of the run changes the parse of what is cached at that point. -/
theorem reads_current_iff (p : Parsers J) (req : Request) (calls : List Call) :
    (∀ n r, read p ((calls.take n).foldl (call p) (fromParsed req)) r =
        current p ((calls.take n).foldl (call p) (fromParsed req)) r) ↔
      Runs.Along (call p) (Keeps p) (fromParsed req) calls := by
  rw [← Runs.invariant_iff_along (coherent_fromParsed req) fun s c h => h.call_iff c]
  apply forall_congr'
  intro n
  exact read_eq_current_iff

/-- A middleware reads the body as JSON before the session has stored it. -/
theorem json_before_body :
    let p : Parsers Bytes := ⟨some, [], fun _ _ => none⟩
    let req : Request := ⟨.hPost, bytes "/", 1, [], [], true, false, none, []⟩
    let s := [Call.read .jsonBody, .write (.storeBody (bytes "1"))].foldl (call p) (fromParsed req)
    s.read p .jsonBody = .json [] ∧ s.read p .jsonBody ≠ s.current p .jsonBody := by
  intro p req s
  apply And.intro rfl
  intro h
  exact absurd (Answer.json.inj h) (by decide)

end HttpRequest

end Hical
