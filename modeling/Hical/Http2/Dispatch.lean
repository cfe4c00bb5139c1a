import Hical.Http2.Stream
import Hical.Session.Serve
import Hical.Middleware.Follows

namespace Hical.Http2
open Effect

def utf8 (s : String) : Bytes := s.toUTF8.data.toList

def mapRequest (rawMethod target : Bytes) (fields : Fields) : Hical.Request where
  method := methodFromStringView rawMethod
  target := target
  httpVersionMinor := 1
  headers := fields
  body := []
  keepAlive := true
  expectContinue := iequals (fields.find (bytes "expect")) (bytes "100-continue")
  upgradePreScanned := some false
  params := []

/-- What a dispatch has beside its request: the stream, and the locals of `dispatchOwned`. -/
structure Dispatched where
  on : OnStream
  bodyRead : Bool := false
  continueSent : Bool := false

/-- The request with what user code keeps for itself, and the rest. -/
abbrev Served (υ : Type) := View υ × Dispatched

/-- What the surroundings of a dispatch decide. -/
structure Surroundings where
  bodyDeadline : Nat
  /-- `connection_->running()`. -/
  running : Bool
  /-- The answer of the codec to the interim response. -/
  submitResponse : NetworkError
  /-- What comes in on the stream while the body is waited for. -/
  arrives : OnStream → OnStream
  /-- The error of the timer that ends the wait. -/
  woken : NetworkError
  /-- `isConnect`. -/
  connect : Bool

def bodyFailure (error : NetworkError) : Response :=
  let response := Response.badRequest (utf8 error.message)
  if error.code = .hResourceLimitExceeded then response.setStatus .hPayloadTooLarge
  else if error.code = .hTimedOut then response.setStatus .kRequestTimeout
  else response

def notImplemented : Response :=
  ((Response.setStatus {} .hOk).setBody (utf8 "HTTP/2 暂不支持此请求类型")
    (bytes "text/plain; charset=utf-8")).setStatus .hNotImplemented

def beside : MiddlewareEntry S ε ρ → MiddlewareEntry (S × T) ε ρ
  | .hAsync (.code p) nb => .hAsync (.code p.lift) nb
  | .hAsync .bodyGate nb => .hAsync .bodyGate nb
  | .hSync b a nb => .hSync (b.map Eff.lift) (a.map fun a => fun res => (a res).lift) nb

section Reading
variable {υ : Type} (w : Surroundings)

def onStream (g : OnStream → OnStream × α) : Eff (Served υ) Exn α :=
  Eff.of fun s => (.ok (g s.2.on).2, s.1, { s.2 with on := (g s.2.on).1 })

/-- `Expect: 100-continue`, while the body is still to come. -/
def answerContinue : Eff (Served υ) Exn (Option Response) := do
  let s ← get
  if !s.2.continueSent && s.1.2.expectContinue && !s.2.on.stream.bodyComplete &&
      decide (s.2.on.now < w.bodyDeadline) && w.running then
    if w.submitResponse.isError then
      let error ← onStream fun x => x.fail w.submitResponse
      pure (some (bodyFailure error))
    else
      modify fun s => (s.1, { s.2 with continueSent := true })
      pure none
  else pure none

def waitBody : Eff (Served υ) Exn NetworkError := do
  match ← onStream fun x => x.waitBody w.bodyDeadline with
  | some error => pure error
  | none => onStream fun x => (w.arrives x).wakeBody w.bodyDeadline w.woken

def publishBody : Eff (Served υ) Exn NetworkError :=
  Eff.of fun s =>
    let (x, error) := s.2.on.publishBody
    let body := if error.isError || s.2.on.stream.bodyPublished then s.1.2.body
      else x.stream.requestBody
    (.ok error, (s.1.1, { s.1.2 with body := body }), { s.2 with on := x })

def takeBody : Eff (Served υ) Exn (Option Response) := do
  let error ← waitBody w
  if error.isError then pure (some (bodyFailure error))
  else
    let error ← publishBody
    if error.isError then pure (some (bodyFailure error))
    else
      modify fun s => (s.1, { s.2 with bodyRead := true })
      pure none

def readBody : Eff (Served υ) Exn (Option Response) := do
  let s ← get
  if s.2.bodyRead then pure none
  else
    match ← answerContinue w with
    | some err => pure (some err)
    | none => takeBody w

end Reading

section Dispatch
variable {υ : Type} (srv : Hical.Server υ) (w : Surroundings)

/-- A routed handler; it sees the request, but cannot change it. -/
def callHandler (h : RouteHandler υ) : Eff (View υ × T) Exn Response := do
  let s ← get
  (h.handler s.1.2).lift.lift

def callEndpoint (readBody : Option (Eff (View υ × T) Exn (Option Response))) :
    Endpoint (RouteHandler υ) → Eff (View υ × T) Exn Response
  | .syncHandler h => mergedRun (h.entries.map beside) (callHandler h)
  | .asyncHandler h => buildOptimizedChain readBody (h.entries.map beside) (callHandler h)
  | .compileTimeChain h => buildOptimizedChain readBody (h.entries.map beside) (callHandler h)

/-- `Router::dispatchSyncResolved` with `dispatchResolved` behind it. -/
def dispatchResolved (readBody : Option (Eff (View υ × T) Exn (Option Response)))
    (result : ResolveResult (RouteHandler υ)) : Eff (View υ × T) Exn Response :=
  if result.pathTooDeep then pure (.badRequest (bytes "Path too deep"))
  else match result.entry with
    | some e => callEndpoint readBody e.endpoint
    | none =>
      if result.allowedMethods ≠ [] then pure (.methodNotAllowed result.allowedMethods)
      else pure .notFound

def tail (result : ResolveResult (RouteHandler υ)) : Eff (Served υ) Exn Response := do
  match ← readBody w with
  | some err => pure err
  | none => dispatchResolved (some (readBody w)) result

/-- `resolveRoute` sets the parameters it captures on the request. -/
def routed (result : ResolveResult η) (req : Hical.Request) : Hical.Request :=
  { req with params := result.params.foldl setParam req.params }

def dispatchMatched (result : ResolveResult (RouteHandler υ)) : Eff (Served υ) Exn Response :=
  if srv.middlewarePipeline.length = 0 then tail w result
  else buildOptimizedChain (some (readBody w)) (srv.middlewarePipeline.map beside) (tail w result)

def dispatchUnmatched (req : Hical.Request) (result : ResolveResult (RouteHandler υ)) :
    Eff (View υ × T) Exn Response :=
  if !result.pathTooDeep && !result.isMethodNotAllowed && req.method == .hGet &&
      (srv.findSseRoute req.path).isSome then pure notImplemented
  else dispatchResolved none result

/-- The body of the `try` block. -/
def dispatchRequest : Eff (Served υ) Exn Response := do
  let s ← get
  let req := s.1.2
  if w.connect || req.method == .hUnknown then pure notImplemented
  else
    let result := srv.router.resolveRoute req.method req.path
    modify fun s => ((s.1.1, routed result s.1.2), s.2)
    if result.isMatch then dispatchMatched srv w result else dispatchUnmatched srv req result

/-- The call of the error handler, which may throw too. -/
def handleError (h : Hical.Request → Eff υ Exn Response) : Eff (View υ × T) Exn Response :=
  Eff.of fun s =>
    match ((h s.1.2).lift.lift : Eff (View υ × T) Exn Response).exec s with
    | (.ok res, s') => (.ok res, s')
    | (.error _, s') => (.ok .serverError, s')

def errorResponse (e : Exn) : Eff (View υ × T) Exn Response :=
  match e, srv.errorHandler with
  | .other, _ => pure .serverError
  | _, none => pure .serverError
  | e, some errorHandler => handleError (errorHandler e)

/-- The `catch` clauses. -/
def catching (x : Eff (View υ × T) Exn Response) : Eff (View υ × T) Exn Response :=
  Eff.of fun s =>
    match x.exec s with
    | (.ok res, s') => (.ok res, s')
    | (.error e, s') => (errorResponse srv e).exec s'

def dispatchOwned (application : Bool) : Eff (Served υ) Exn Response := do
  let s ← get
  if s.2.on.stream.error.isError then pure (bodyFailure s.2.on.stream.error)
  else if !application then pure .serverError
  else catching srv (dispatchRequest srv w)

/-- `dispatch`: the slot is held until the response is there. -/
def dispatch : Eff (Served υ) Exn Response := do
  let application ← onStream OnStream.startApplication
  let response ← dispatchOwned srv w application
  if application then onStream fun x => (x.finishApplication, ()) else pure ()
  pure response

end Dispatch

section Plain
variable {υ : Type} (srv : Hical.Server υ)

/-- A handler, a route, a router and a pipeline without a connection around them. -/
def plainHandler (h : RouteHandler υ) : Eff (View υ) Exn Response := do
  let v ← get
  (h.handler v.2).lift

def plainEndpoint : Endpoint (RouteHandler υ) → Eff (View υ) Exn Response
  | .syncHandler h => mergedRun h.entries (plainHandler h)
  | .asyncHandler h => buildOptimizedChain none h.entries (plainHandler h)
  | .compileTimeChain h => buildOptimizedChain none h.entries (plainHandler h)

def routerAnswer (result : ResolveResult (RouteHandler υ)) : Response :=
  if result.pathTooDeep then .badRequest (bytes "Path too deep")
  else if result.allowedMethods ≠ [] then .methodNotAllowed result.allowedMethods
  else .notFound

def plainResolved (result : ResolveResult (RouteHandler υ)) : Eff (View υ) Exn Response :=
  if result.pathTooDeep then pure (routerAnswer result)
  else match result.entry with
    | some e => plainEndpoint e.endpoint
    | none => pure (routerAnswer result)

def plainHandleError (h : Hical.Request → Eff υ Exn Response) : Eff (View υ) Exn Response :=
  Eff.of fun v =>
    match ((h v.2).lift : Eff (View υ) Exn Response).exec v with
    | (.ok res, v') => (.ok res, v')
    | (.error _, v') => (.ok .serverError, v')

def plainError (e : Exn) : Eff (View υ) Exn Response :=
  match e, srv.errorHandler with
  | .other, _ => pure .serverError
  | _, none => pure .serverError
  | e, some errorHandler => plainHandleError (errorHandler e)

def plainCatching (x : Eff (View υ) Exn Response) : Eff (View υ) Exn Response :=
  Eff.of fun v =>
    match x.exec v with
    | (.ok res, v') => (.ok res, v')
    | (.error e, v') => (plainError srv e).exec v'

/-- Routing, middlewares and errors, whatever the protocol. -/
def plainDispatch (result : ResolveResult (RouteHandler υ)) : Eff (View υ) Exn Response :=
  plainCatching srv (buildOptimizedChain none srv.middlewarePipeline (plainResolved result))

end Plain

section Follows
variable {υ T : Type} {srv : Hical.Server υ} {I : View υ × T → Prop}

/-- What holds goes on holding when user code that sees nothing but the view has run. -/
def Ignores (I : View υ × T → Prop) : Prop := ∀ v v' t, I (v, t) → I (v', t)

theorem follows_beside {e : MiddlewareEntry (View υ) Exn Response}
    (hI : ∀ t, e.Keeps fun v => I (v, t)) : (beside e).Follows I e := by
  cases e with
  | hAsync h nb =>
    cases h with
    | code p => exact ⟨rfl, fun n n' hn => p.follows_lift hI hn⟩
    | bodyGate => rfl
  | hSync b a nb =>
    refine ⟨rfl, ?_, ?_⟩
    · cases b with
      | none => exact .none
      | some b => exact .some (.lift fun s hs => (hI s.2).1 b rfl s.1 hs)
    · cases a with
      | none => exact .none
      | some a => exact .some fun res => .lift fun s hs => (hI s.2).2 a rfl res s.1 hs

theorem Ignores.keeps (hI : Ignores I) (e : MiddlewareEntry (View υ) Exn Response) (t : T) :
    e.Keeps fun v => I (v, t) := by
  cases e with
  | hAsync h nb =>
    cases h with
    | code p =>
      show p.ActsKeep fun v => I (v, t)
      induction p with
      | ret r => trivial
      | raise e => trivial
      | act upd k ih => exact ⟨fun v => hI v _ t, fun v => ih _⟩
      | next k ih => exact fun r => ih r
    | bodyGate => trivial
  | hSync b a nb => exact ⟨fun x _ v => hI v _ t, fun f _ res v => hI v _ t⟩

theorem follows_callHandler (hI : ∀ u v t, I (v, t) → I ((u, v.2), t)) (h : RouteHandler υ) :
    Follows I (callHandler h) (plainHandler h) :=
  .get_bind fun _ => .lift fun s' hs => hI _ s'.1 s'.2 hs

theorem follows_handleError (hI : ∀ u v t, I (v, t) → I ((u, v.2), t))
    (h : Hical.Request → Eff υ Exn Response) : Follows I (handleError h) (plainHandleError h) := by
  intro s hs
  have hI' := hI ((h s.1.2).exec s.1.1).2 s.1 s.2 hs
  rw [handleError, plainHandleError, exec_of, exec_of, exec_lift, exec_lift]
  cases hx : (h s.1.2).exec s.1.1 with
  | mk r u =>
    rw [hx] at hI'
    cases r with
    | ok res => exact ⟨rfl, rfl, hI'⟩
    | error e => exact ⟨rfl, rfl, hI'⟩

theorem follows_errorResponse (hI : ∀ u v t, I (v, t) → I ((u, v.2), t)) (e : Exn) :
    Follows I (errorResponse srv e) (plainError srv e) := by
  rw [errorResponse.eq_def, plainError.eq_def]
  cases srv.errorHandler with
  | none =>
    cases e with
    | system | std what | other => exact .pure _
  | some h =>
    cases e with
    | system => exact follows_handleError hI _
    | std what => exact follows_handleError hI _
    | other => exact .pure _

theorem follows_catching (hI : ∀ u v t, I (v, t) → I ((u, v.2), t))
    {x : Eff (View υ × T) Exn Response} {y : Eff (View υ) Exn Response} (hx : Follows I x y) :
    Follows I (catching srv x) (plainCatching srv y) := by
  intro s hs
  obtain ⟨hr, hv, hs'⟩ := hx s hs
  rw [catching, plainCatching, exec_of, exec_of]
  cases hxs : x.exec s with
  | mk r s' =>
    cases hys : y.exec s.1 with
    | mk r' v' =>
      rw [hxs, hys] at hr hv
      rw [hxs] at hs'
      cases hr
      cases hv
      cases r with
      | ok res => exact ⟨rfl, rfl, hs'⟩
      | error e => exact follows_errorResponse hI e s' hs'

end Follows

end Hical.Http2
