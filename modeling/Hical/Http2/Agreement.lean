import Hical.Http2.Dispatch
import Hical.Session.ReadChunked

namespace Hical.Http2
open Effect

section OverHttp1
variable {υ : Type} {srv : Hical.Server υ} {w : World} {f : Framing}

/-- No bytes of a body follow the head. -/
structure Framing.BodyLess (f : Framing) : Prop where
  not_chunked : f.isChunked = false
  no_length : f.contentLength = 0

/-- The connection takes what is written to it. -/
def Healthy (s : Sess υ) : Prop := s.2.broken = false

theorem follows_onSess (e : MiddlewareEntry (View υ) Exn Response) :
    MiddlewareEntry.Follows Healthy e.onSess e := by
  have hnote : ∀ (nb : Bool) (s : Sess υ), Healthy s →
      (noteUseBody nb s).1 = s.1 ∧ Healthy (noteUseBody nb s) := by
    intro nb s hs
    rw [noteUseBody]
    split
    · exact ⟨rfl, hs⟩
    · exact ⟨rfl, hs⟩
  cases e with
  | hAsync h nb =>
    cases h with
    | bodyGate => rfl
    | code p =>
      refine ⟨rfl, fun n n' hn s hs => ?_⟩
      obtain ⟨hv, hs'⟩ := hnote nb s hs
      have hp := p.follows_lift (I := Healthy) (fun c => p.actsKeep_const (c.broken = false)) hn _ hs'
      rw [hv] at hp
      exact hp
  | hSync b a nb =>
    refine ⟨rfl, ?_, ?_⟩
    · cases b with
      | none => exact .none
      | some b => exact .some (.after (hnote nb) (.lift fun s hs => hs))
    · cases a with
      | none => exact .none
      | some a => exact .some fun res => .after (hnote nb) (.lift fun s hs => hs)

theorem forall₂_onSess (es : List (MiddlewareEntry (View υ) Exn Response)) :
    List.Forall₂ (MiddlewareEntry.Follows Healthy) (es.map MiddlewareEntry.onSess) es := by
  rw [List.forall₂_map_left_iff, List.forall₂_same]
  exact fun e _ => follows_onSess e

theorem follows_call (h : RouteHandler υ) : Follows Healthy h.call (plainHandler h) :=
  .get_bind fun _ => .after (fun _ hs => ⟨rfl, hs⟩) (.lift fun _ hs => hs)

theorem follows_sessResolved {read : Option (Eff (Sess υ) Exn (Option Response))}
    (hr : Gates Healthy read none) (result : ResolveResult (RouteHandler υ)) :
    Follows Healthy (Hical.dispatchResolved read result) (plainResolved result) := by
  rw [Hical.dispatchResolved, plainResolved, routerAnswer]
  split
  · exact .pure _
  · cases result.entry with
    | some e =>
      dsimp only
      cases e.endpoint with
      | syncHandler h => exact follows_mergedRun (forall₂_onSess h.entries) (follows_call h)
      | asyncHandler h | compileTimeChain h =>
        exact follows_buildOptimizedChain hr (follows_call h) (forall₂_onSess h.entries)
    | none =>
      dsimp only
      split
      · exact .pure _
      · exact .pure _

theorem follows_readRequestBody (maxBodySize : Nat) (hw : w.Takes) (hf : Framing.BodyLess f) :
    Follows Healthy (readRequestBody (υ := υ) w maxBodySize f) (pure none) := by
  apply Follows.of_ok
  intro s hs
  have read : Triple (fun t => t = s) (readRequestBody (υ := υ) w maxBodySize f)
      (fun a t => a = none ∧ t.1 = s.1 ∧ Healthy t) fun _ _ => False := by
    apply Triple.get_bind
    rintro t rfl
    split
    · apply Triple.pure
      rintro _ rfl
      exact ⟨rfl, rfl, hs⟩
    · apply Triple.bind (Q := fun _ => Holds False t.1
        { t.2.toIncoming with bodyRead := true, bodyReads := t.2.bodyReads + 1 })
      · apply Triple.modify
        rintro _ rfl
        exact ⟨rfl, rfl, .inr hs⟩
      · intro _
        apply Triple.bind (holds_answerExpect w (.inr hw) maxBodySize f)
        intro r t'
        rintro ⟨ht', hr⟩
        rcases hr with rfl | ⟨-, hbig⟩
        · have hsized : ¬(f.hasContentLength = true ∧ 0 < f.contentLength) := by
            rw [hf.no_length]
            exact fun h => Nat.lt_irrefl 0 h.2
          dsimp only
          rw [if_neg hsized, hf.not_chunked, if_neg Bool.false_ne_true]
          exact ⟨rfl, ht'.view, ht'.sound.resolve_left id⟩
        · rw [hf.no_length] at hbig
          exact absurd hbig (Nat.not_lt_zero _)
  obtain ⟨a, s', hx, rfl, hv, hs'⟩ := read.returns rfl
  exact ⟨s', hx, hv, hs'⟩

theorem handleError_eq (h : Hical.Request → Eff υ Exn Response) : handleError (T := Conn) h = Eff.of fun s =>
    match ((h s.1.2).lift.lift : Eff (Sess υ) Exn Response).exec s with
    | (.ok res, s') => (.ok res, s')
    | (.error _, s') => (.ok .serverError, s') := by
  rw [handleError]
  congr 1
  funext s
  cases ((h s.1.2).lift.lift : Eff (Sess υ) Exn Response).exec s with
  | mk r s' => cases r <;> rfl

theorem errorResponse_eq (e : Exn) :
    Hical.errorResponse srv e = errorResponse (T := Conn) srv e := by
  rw [Hical.errorResponse.eq_def, errorResponse.eq_def]
  cases srv.errorHandler with
  | none => cases e <;> rfl
  | some h =>
    cases e with
    | system => exact (handleError_eq _).symm
    | std what => exact (handleError_eq _).symm
    | other => rfl

theorem catching_eq (x : Eff (Sess υ) Exn Response) : Hical.catching srv x = catching srv x := by
  rw [Hical.catching, catching]
  congr 1
  funext s
  cases x.exec s with
  | mk r s' =>
    cases r with
    | ok res => rfl
    | error e => exact congrArg (fun y => Eff.exec y s') (errorResponse_eq e)

theorem follows_readThen {A C : Type} {I : A × C → Prop}
    {read : Eff (A × C) Exn (Option Response)} (hread : Follows I read (pure none))
    {x : Eff (A × C) Exn Response} {y : Eff A Exn Response} (hx : Follows I x y) :
    Follows I (read >>= fun r => match r with
      | some err => pure err
      | none => x) y :=
  hread.bind (g := fun r => match r with
    | some err => pure err
    | none => y) fun r => match r with
      | some err => .pure err
      | none => hx

theorem follows_sessTail
    (hread : Follows Healthy (readRequestBody (υ := υ) w srv.maxBodySize f) (pure none))
    (result : ResolveResult (RouteHandler υ)) :
    Follows Healthy (Hical.tail srv w f result) (plainResolved result) := by
  have hunless : Follows Healthy (readUnlessRead srv w f) (pure none) := by
    apply Follows.get_bind (g := fun _ => pure none)
    intro s
    split
    · exact .pure _
    · exact hread
  exact follows_readThen hunless (follows_sessResolved (gates_some hread) result)

theorem wsTarget_none (hws : srv.wsRoutes = []) (req : Hical.Request) : srv.wsTarget req = none := by
  rw [Hical.Server.wsTarget, Hical.Server.findWsRoute, hws]
  split
  · rfl
  · rfl

theorem findSseRoute_none (hsse : srv.sseRoutes = []) (path : Bytes) :
    srv.findSseRoute path = none := by
  rw [Hical.Server.findSseRoute, hsse]
  rfl

theorem sseTarget_none (hsse : srv.sseRoutes = []) (req : Hical.Request) : srv.sseTarget req = none := by
  rw [Hical.Server.sseTarget, findSseRoute_none hsse]
  split
  · rfl
  · rfl

theorem follows_runMainChain (hws : srv.wsRoutes = []) (hsse : srv.sseRoutes = []) (hw : w.Takes)
    (hf : Framing.BodyLess f) (result : ResolveResult (RouteHandler υ)) :
    Follows Healthy (runMainChain srv w f result) (plainDispatch srv result) := by
  have hread := follows_readRequestBody (υ := υ) srv.maxBodySize hw hf
  have hmain : Follows Healthy (Hical.dispatchRequest srv w f result)
      (buildOptimizedChain none srv.middlewarePipeline (plainResolved result)) := by
    rw [Hical.dispatchRequest]
    split
    · apply follows_buildOptimizedChain (gates_some hread) _ (forall₂_onSess _)
      exact follows_sessTail hread result
    · next hp =>
      have hnil : srv.middlewarePipeline = [] := List.length_eq_zero_iff.1 (Nat.le_zero.1 (Nat.le_of_not_lt hp))
      rw [hnil]
      exact follows_readThen hread (follows_sessResolved gates_none result)
  intro s hs
  have hup : srv.isWsOrSse s.1.2 = false := by
    rw [Hical.Server.isWsOrSse, wsTarget_none hws, sseTarget_none hsse]
    rfl
  rw [runMainChain, exec_bind, exec_get]
  dsimp only
  rw [hup, if_neg Bool.false_ne_true, catching_eq]
  exact follows_catching (fun _ _ _ h => h) hmain s hs

end OverHttp1

section OverHttp2
variable {υ : Type} {srv : Hical.Server υ} {w : Surroundings}

structure EndedWithHead (w : Surroundings) (x : OnStream) : Prop where
  no_error : x.stream.error.isError = false
  complete : x.stream.bodyComplete = true
  not_failed : x.stream.bodyFailed = false
  in_time : x.stream.bodyCompletedAt ≤ w.bodyDeadline
  is_request : x.stream.incomingKind = .hRequest
  empty : x.stream.pendingBody = []

def TakenOver (w : Surroundings) (s : Served υ) : Prop :=
  EndedWithHead w s.2.on ∧ s.2.bodyRead = true

/-- The body of the request is the one that is still to be taken over. -/
def Untouched (w : Surroundings) (s : Served υ) : Prop :=
  EndedWithHead w s.2.on ∧ (s.2.bodyRead = true ∨ s.1.2.body = [])

theorem answerContinue_ended (s : Served υ) (h : EndedWithHead w s.2.on) :
    (answerContinue w).exec s = (.ok none, s) := by
  rw [answerContinue, exec_bind, exec_get]
  dsimp only
  rw [h.complete, if_neg (by simp)]
  rfl

theorem waitBody_ended (s : Served υ) (h : EndedWithHead w s.2.on) :
    (waitBody w).exec s = (.ok {}, s) := by
  have hwait : s.2.on.waitBody w.bodyDeadline = (s.2.on, some {}) := by
    rw [OnStream.waitBody, if_pos h.complete, OnStream.bodyResult, h.not_failed,
      if_neg Bool.false_ne_true, if_pos h.in_time]
  have hon : (onStream (υ := υ) fun x => x.waitBody w.bodyDeadline).exec s = (.ok (some {}), s) := by
    rw [onStream, exec_of, hwait]
  rw [waitBody, exec_bind, hon]
  rfl

/-- The body that is published the first time is the empty one that came. -/
theorem publishBody_ended (s : Served υ) (h : EndedWithHead w s.2.on) (hb : s.1.2.body = []) :
    ∃ x, (publishBody (υ := υ)).exec s = (.ok {}, s.1, { s.2 with on := x }) ∧ EndedWithHead w x := by
  have hsame : ((s.1.1, { s.1.2 with body := [] }) : View υ) = s.1 := by rw [← hb]
  cases hp : s.2.on.stream.bodyPublished with
  | true =>
    have hpub : s.2.on.publishBody = (s.2.on, {}) := by
      simp only [OnStream.publishBody, h.no_error, h.complete, hp, Bool.not_true, Bool.false_eq_true,
        if_false, if_true]
    refine ⟨s.2.on, ?_, h⟩
    rw [publishBody, exec_of, hpub, hp]
    rfl
  | false =>
    refine ⟨{ s.2.on with stream := { s.2.on.stream with
        requestBody := [], pendingBody := [], bodyPublished := true } }, ?_,
      ⟨h.no_error, h.complete, h.not_failed, h.in_time, h.is_request, rfl⟩⟩
    have hpub : s.2.on.publishBody = ({ s.2.on with stream := { s.2.on.stream with
        requestBody := [], pendingBody := [], bodyPublished := true } }, {}) := by
      simp only [OnStream.publishBody, h.no_error, h.complete, hp, h.is_request, h.empty,
        Bool.not_true, Bool.false_eq_true, if_false, if_true]
    rw [publishBody, exec_of, hpub, hp]
    exact Prod.ext rfl (Prod.ext hsame rfl)

theorem readBody_untouched (s : Served υ) (h : Untouched w s) :
    ∃ s', (readBody w).exec s = (.ok none, s') ∧ s'.1 = s.1 ∧ TakenOver w s' := by
  rw [readBody, exec_bind, exec_get]
  dsimp only
  cases hr : s.2.bodyRead with
  | true => exact ⟨s, rfl, rfl, h.1, hr⟩
  | false =>
    have hb : s.1.2.body = [] := h.2.resolve_left (by rw [hr]; exact Bool.false_ne_true)
    obtain ⟨x, hp, hx⟩ := publishBody_ended s h.1 hb
    rw [if_neg Bool.false_ne_true, exec_bind, answerContinue_ended s h.1]
    dsimp only
    rw [takeBody, exec_bind, waitBody_ended s h.1]
    dsimp only
    rw [if_neg (by decide), exec_bind, hp]
    dsimp only
    rw [if_neg (by decide)]
    exact ⟨(s.1, { s.2 with on := x, bodyRead := true }), rfl, rfl, hx, rfl⟩

theorem follows_readBody_takenOver : Follows (TakenOver w) (readBody (υ := υ) w) (pure none) := by
  apply Follows.of_ok
  intro s h
  refine ⟨s, ?_, rfl, h⟩
  rw [readBody, exec_bind, exec_get]
  dsimp only
  rw [h.2]
  rfl

theorem follows_readBody : Follows (Untouched w) (readBody (υ := υ) w) (pure none) := by
  apply Follows.of_ok
  intro s h
  obtain ⟨s', hx, hv, ht⟩ := readBody_untouched s h
  exact ⟨s', hx, hv, ht.1, .inl ht.2⟩

theorem forall₂_beside {T : Type} {I : View υ × T → Prop}
    {es : List (MiddlewareEntry (View υ) Exn Response)}
    (h : ∀ e ∈ es, ∀ t, e.Keeps fun v => I (v, t)) :
    List.Forall₂ (MiddlewareEntry.Follows I) (es.map beside) es := by
  rw [List.forall₂_map_left_iff, List.forall₂_same]
  exact fun e he => follows_beside (h e he)

theorem follows_dispatchResolved {T : Type} {I : View υ × T → Prop} (hI : Ignores I)
    {read : Option (Eff (View υ × T) Exn (Option Response))} (hr : Gates I read none)
    (result : ResolveResult (RouteHandler υ)) :
    Follows I (dispatchResolved read result) (plainResolved result) := by
  have hentries : ∀ h : RouteHandler υ,
      List.Forall₂ (MiddlewareEntry.Follows I) (h.entries.map beside) h.entries :=
    fun h => forall₂_beside fun e _ => hI.keeps e
  have hcall : ∀ h : RouteHandler υ, Follows I (callHandler h) (plainHandler h) :=
    follows_callHandler fun u v t => hI v (u, v.2) t
  rw [dispatchResolved, plainResolved, routerAnswer]
  split
  · exact .pure _
  · cases result.entry with
    | some e =>
      dsimp only
      cases e.endpoint with
      | syncHandler h => exact follows_mergedRun (hentries h) (hcall h)
      | asyncHandler h | compileTimeChain h => exact follows_buildOptimizedChain hr (hcall h) (hentries h)
    | none =>
      dsimp only
      split
      · exact .pure _
      · exact .pure _

theorem follows_tail (result : ResolveResult (RouteHandler υ)) :
    Follows (Untouched w) (tail w result) (plainResolved result) := by
  intro s h
  obtain ⟨s', hx, hv, ht⟩ := readBody_untouched s h
  have htaken : Ignores (υ := υ) (TakenOver w) := fun _ _ _ h => h
  obtain ⟨hr, ha, hI⟩ := follows_dispatchResolved htaken (gates_some follows_readBody_takenOver) result s' ht
  rw [tail, exec_bind, hx]
  rw [hv] at hr ha
  exact ⟨hr, ha, hI.1, .inl hI.2⟩

/-- A middleware that puts no body into a request leaves what the dispatch relies on. -/
theorem keeps_untouched {e : MiddlewareEntry (View υ) Exn Response}
    (he : e.Keeps fun v => v.2.body = []) (d : Dispatched) : e.Keeps fun v => Untouched w (v, d) := by
  have through : ∀ v v' : View υ, (v.2.body = [] → v'.2.body = []) →
      Untouched w (v, d) → Untouched w (v', d) :=
    fun v v' h hu => ⟨hu.1, hu.2.imp id h⟩
  cases e with
  | hAsync h nb =>
    cases h with
    | code p => exact Prog.ActsKeep.through he through
    | bodyGate => trivial
  | hSync b a nb =>
    exact ⟨fun x hx v => through v _ (he.1 x hx v), fun f hf res v => through v _ (he.2 f hf res v)⟩

theorem follows_dispatchMatched
    (hp : ∀ e ∈ srv.middlewarePipeline, e.Keeps fun v => v.2.body = [])
    (result : ResolveResult (RouteHandler υ)) :
    Follows (Untouched w) (dispatchMatched srv w result)
      (buildOptimizedChain none srv.middlewarePipeline (plainResolved result)) := by
  rw [dispatchMatched]
  split
  · next h0 =>
    rw [List.length_eq_zero_iff.1 h0]
    exact follows_tail result
  · exact follows_buildOptimizedChain (gates_some follows_readBody) (follows_tail result)
      (forall₂_beside fun e he => keeps_untouched (hp e he))

end OverHttp2

section Agreement
variable {υ : Type} (srv : Hical.Server υ)

/-- How a dispatch ended, and what user code left of its own state and of the request. -/
def outcome {T : Type} (x : Eff (View υ × T) Exn Response) (v : View υ) (t : T) :
    Except Exn Response × View υ :=
  ((x.exec (v, t)).1, (x.exec (v, t)).2.1)

theorem outcome_follows {T : Type} {I : View υ × T → Prop} {x : Eff (View υ × T) Exn Response}
    {y : Eff (View υ) Exn Response} (h : Follows I x y) {v : View υ} {t : T} (hI : I (v, t)) :
    outcome x v t = y.exec v := by
  obtain ⟨hr, hv, -⟩ := h (v, t) hI
  exact Prod.ext hr hv

theorem exec_catching {T : Type} {x y : Eff (View υ × T) Exn Response} {s t : View υ × T}
    (h : x.exec s = y.exec t) : (catching srv x).exec s = (catching srv y).exec t := by
  rw [catching, catching, exec_of, exec_of, h]

variable {srv} {w : Surroundings} {d : Dispatched}

theorem dispatchOwned_catching (hd : EndedWithHead w d.on) (v : View υ) :
    (dispatchOwned srv w true).exec (v, d) = (catching srv (dispatchRequest srv w)).exec (v, d) := by
  rw [dispatchOwned, exec_bind, exec_get]
  dsimp only
  rw [hd.no_error, if_neg Bool.false_ne_true]
  rfl

/-- A request over HTTP/2 with one of the methods that the router knows. -/
def Known (w : Surroundings) (req : Hical.Request) : Prop := w.connect = false ∧ req.method ≠ .hUnknown

theorem exec_dispatchRequest (srv : Hical.Server υ) (d : Dispatched) (hk : Known w req) (u : υ) :
    (dispatchRequest srv w).exec ((u, req), d) =
      (if (srv.router.resolveRoute req.method req.path).isMatch
        then dispatchMatched srv w (srv.router.resolveRoute req.method req.path)
        else dispatchUnmatched srv req (srv.router.resolveRoute req.method req.path)).exec
        ((u, routed (srv.router.resolveRoute req.method req.path) req), d) := by
  have hm : (req.method == HttpMethod.hUnknown) = false := beq_eq_false_iff_ne.2 hk.2
  rw [dispatchRequest, exec_bind, exec_get]
  dsimp only
  rw [hk.1, hm, Bool.or_false, if_neg Bool.false_ne_true]
  rfl

theorem outcome_unknown (hd : EndedWithHead w d.on) (hk : ¬Known w req) (u : υ) :
    outcome (dispatchOwned srv w true) (u, req) d = (.ok notImplemented, (u, req)) := by
  have hx : (dispatchRequest srv w).exec ((u, req), d) = (.ok notImplemented, ((u, req), d)) := by
    have hor : (w.connect || req.method == HttpMethod.hUnknown) = true := by
      rw [Bool.or_eq_true, beq_iff_eq]
      by_cases hc : w.connect = true
      · exact .inl hc
      · exact .inr (not_not.1 fun hm => hk ⟨Bool.eq_false_iff.2 hc, hm⟩)
    rw [dispatchRequest, exec_bind, exec_get]
    dsimp only
    rw [hor]
    rfl
  rw [outcome, dispatchOwned_catching hd, catching, exec_of, hx]

theorem outcome_matched (hp : ∀ e ∈ srv.middlewarePipeline, e.Keeps fun v => v.2.body = [])
    (hd : EndedWithHead w d.on) (hk : Known w req) (hb : req.body = [])
    (hm : (srv.router.resolveRoute req.method req.path).isMatch = true) (u : υ) :
    outcome (dispatchOwned srv w true) (u, req) d =
      (plainDispatch srv (srv.router.resolveRoute req.method req.path)).exec
        (u, routed (srv.router.resolveRoute req.method req.path) req) := by
  have hx := exec_dispatchRequest srv d hk u
  rw [if_pos hm] at hx
  rw [outcome, dispatchOwned_catching hd, exec_catching srv hx]
  exact outcome_follows (follows_catching (fun _ _ _ h => h) (follows_dispatchMatched hp _))
    ⟨hd, .inr hb⟩

theorem outcome_unmatched (hsse : srv.sseRoutes = []) (hd : EndedWithHead w d.on)
    (hk : Known w req) (hm : (srv.router.resolveRoute req.method req.path).isMatch = false) (u : υ) :
    outcome (dispatchOwned srv w true) (u, req) d =
      (.ok (routerAnswer (srv.router.resolveRoute req.method req.path)),
        (u, routed (srv.router.resolveRoute req.method req.path) req)) := by
  have hx := exec_dispatchRequest srv d hk u
  rw [hm, if_neg Bool.false_ne_true] at hx
  generalize srv.router.resolveRoute req.method req.path = result at hm hx
  have hr : dispatchUnmatched (T := Dispatched) srv req result = pure (routerAnswer result) := by
    have hn : result.entry = none := Option.isNone_iff_eq_none.1 (Option.isSome_eq_false_iff.1 hm)
    rw [dispatchUnmatched, findSseRoute_none hsse, Option.isSome_none, Bool.and_false,
      if_neg Bool.false_ne_true, dispatchResolved, routerAnswer, hn]
    split
    · rfl
    · dsimp only
      split <;> rfl
  rw [outcome, dispatchOwned_catching hd, exec_catching srv hx, hr]
  rfl

theorem plainResolved_unmatched {result : ResolveResult (RouteHandler υ)}
    (hm : result.isMatch = false) : plainResolved result = pure (routerAnswer result) := by
  have hn : result.entry = none := Option.isNone_iff_eq_none.1 (Option.isSome_eq_false_iff.1 hm)
  rw [plainResolved, hn]
  split
  · rfl
  · rfl

theorem serveHead_deep (w : World) (head : PhrRequest) (headerBytes : Nat)
    (hs : (scanHead head).badFraming head.minorVersion = false)
    (ht : (scanHead head).transferEncodingStatus ≠ .hNotImplemented)
    (hd : (resolve srv head).pathTooDeep = true) :
    serveHead srv w head headerBytes =
      refuseRequest w 400 (bytes "Bad Request") (bytes "Path too deep") := by
  rw [serveHead, hs, if_neg Bool.false_ne_true, if_neg ht, if_pos hd]

/-- Without a body and without upgrades, the two protocols answer a request that a route takes alike
and leave alike what user code can tell. Of the others HTTP/2 lets the router answer alone, while
HTTP/1 runs the middlewares around that answer. -/
theorem dispatch_agrees (srv : Hical.Server υ) (hws : srv.wsRoutes = []) (hsse : srv.sseRoutes = [])
    (hp : ∀ e ∈ srv.middlewarePipeline, e.Keeps fun v => v.2.body = [])
    (w : World) (hw : w.Takes) (f : Framing) (hf : Framing.BodyLess f) (c : Conn)
    (hc : c.broken = false) (w' : Surroundings) (d : Dispatched) (hd : EndedWithHead w' d.on)
    (u : υ) (req : Hical.Request) (hb : req.body = []) :
    let result := srv.router.resolveRoute req.method req.path
    let first := outcome (runMainChain srv w f result) (u, routed result req) c
    let second := outcome (dispatchOwned srv w' true) (u, req) d
    (Known w' req → result.isMatch = true → first = second) ∧
    (Known w' req → result.isMatch = false →
      second = (.ok (routerAnswer result), (u, routed result req)) ∧
      first = (plainCatching srv (buildOptimizedChain none srv.middlewarePipeline
        (pure (routerAnswer result)))).exec (u, routed result req) ∧
      (srv.middlewarePipeline = [] → first = second)) ∧
    (result.pathTooDeep = true → routerAnswer result = .badRequest (bytes "Path too deep") ∧
      ∀ head headerBytes, (scanHead head).badFraming head.minorVersion = false →
        (scanHead head).transferEncodingStatus ≠ .hNotImplemented → resolve srv head = result →
        serveHead srv w head headerBytes =
          refuseRequest w 400 (bytes "Bad Request") (bytes "Path too deep")) ∧
    (¬Known w' req → second = (.ok notImplemented, (u, req))) := by
  intro result first second
  have hfirst : first = (plainDispatch srv result).exec (u, routed result req) :=
    outcome_follows (follows_runMainChain hws hsse hw hf result) hc
  refine ⟨fun hk hm => ?_, fun hk hm => ?_, fun hdeep => ⟨?_, ?_⟩, fun hk => outcome_unknown hd hk u⟩
  · exact hfirst.trans (outcome_matched hp hd hk hb hm u).symm
  · have hsecond := outcome_unmatched hsse hd hk hm u
    have hfirst' := hfirst
    rw [plainDispatch, plainResolved_unmatched hm] at hfirst'
    refine ⟨hsecond, hfirst', fun hnil => ?_⟩
    rw [hfirst', hnil]
    exact hsecond.symm
  · rw [routerAnswer, if_pos hdeep]
  · intro head headerBytes hs ht hr
    exact serveHead_deep w head headerBytes hs ht (hr ▸ hdeep)

end Agreement

section Examples

/-- A middleware that asks for credentials, one that writes a body, and a route that tells it. -/
def guardedServer : Hical.Server Nat where
  maxHeaderSize := 8192
  maxBodySize := 1024
  ssl := false
  router := (Router.empty _).route .hGet (bytes "/") ⟨[], fun req => do
    modify (· + req.body.length)
    pure .okEmpty⟩
  wsRoutes := []
  sseRoutes := []
  middlewarePipeline := []
  errorHandler := none

def countingServer (res : Option Response) : Hical.Server Nat :=
  { guardedServer with middlewarePipeline :=
      [.hSync (some (do modify fun v => (v.1 + 1, v.2); pure res)) none false] }

def writingServer : Hical.Server Nat :=
  { guardedServer with middlewarePipeline :=
      [.hSync (some (do modify fun v => (v.1, { v.2 with body := [0] }); pure none)) none false] }

def plainFraming : Framing := ⟨0, false, 0, false, 1⟩

def endedStream : Dispatched where
  on := { shared := {}, stream := {
    id := 1, incomingKind := .hRequest, initialSealed := true, bodyComplete := true
    protocol := {}, application := {}, receive := {}, send := {} } }

def calmSurroundings : Surroundings where
  bodyDeadline := 1
  running := true
  submitResponse := {}
  arrives := id
  woken := {}
  connect := false

theorem endedStream_ended : EndedWithHead calmSurroundings endedStream.on :=
  ⟨rfl, rfl, rfl, Nat.zero_le _, rfl, rfl⟩

def firstOf (srv : Hical.Server Nat) (req : Hical.Request) : Except Exn Response × View Nat :=
  outcome (runMainChain srv calmWorld plainFraming (srv.router.resolveRoute req.method req.path))
    (0, routed (srv.router.resolveRoute req.method req.path) req) { inbox := [] }

def secondOf (srv : Hical.Server Nat) (req : Hical.Request) : Except Exn Response × View Nat :=
  outcome (dispatchOwned srv calmSurroundings true) (0, req) endedStream

theorem dispatch_agrees_counting :
    firstOf (countingServer none) (mapRequest (bytes "GET") (bytes "/") []) =
      secondOf (countingServer none) (mapRequest (bytes "GET") (bytes "/") []) := by
  have hp : ∀ e ∈ (countingServer none).middlewarePipeline, e.Keeps fun v => v.2.body = [] := by
    rintro e (_ | ⟨_, he⟩)
    · exact ⟨fun x hx v hv => by cases hx; exact hv, fun f hf => nomatch hf⟩
    · cases he
  exact (dispatch_agrees (countingServer none) rfl rfl hp calmWorld calmWorld_reliable.takes
    plainFraming ⟨rfl, rfl⟩ { inbox := [] } rfl calmSurroundings endedStream endedStream_ended 0
    (mapRequest (bytes "GET") (bytes "/") []) rfl).1 ⟨rfl, by decide⟩ (by decide +kernel)

/-- The middleware runs for an unknown path on HTTP/1 only, the body that a middleware writes is lost
on HTTP/2 only, and a method that the router does not know is not even looked up there. -/
theorem dispatch_differs :
    firstOf (countingServer none) (mapRequest (bytes "GET") (bytes "/none") []) ≠
      secondOf (countingServer none) (mapRequest (bytes "GET") (bytes "/none") []) ∧
    firstOf writingServer (mapRequest (bytes "GET") (bytes "/") []) ≠
      secondOf writingServer (mapRequest (bytes "GET") (bytes "/") []) ∧
    firstOf guardedServer (mapRequest (bytes "BREW") (bytes "/") []) ≠
      secondOf guardedServer (mapRequest (bytes "BREW") (bytes "/") []) := by
  decide +kernel

end Examples

end Hical.Http2
