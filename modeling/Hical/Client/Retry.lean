import Hical.Client.Options

namespace Hical.Client
open Hical.Http2

def isTransientTransportError : ErrorCode → Bool
  | .hEof | .hConnectionReset | .hConnectionRefused | .hConnectionAborted
  | .hNetworkUnreachable | .hHostUnreachable | .hBrokenPipe => true
  | _ => false

def canRetry (result : HttpClientResult) (method : HttpMethod) (reused managed : Bool) : Bool :=
  if !isHttpMethodIdempotent method || !result.error.isError then false
  else if managed && result.requestDisposition = .hNotSent &&
      isTransientTransportError result.error.code then true
  else if result.protocol = .hHttp1 then
    reused && result.status = 0 && isTransientTransportError result.error.code
  else if result.requestDisposition ≠ .hNotProcessed then false
  else
    match result.error.http2 with
    | none => false
    | some raw =>
      (result.error.code = .hHttp2StreamError && 0 < raw.streamId && raw.code = .hRefusedStream) ||
        (result.error.code = .hHttp2ConnectionError && raw.streamId = 0)

/-- `HttpClientPool::OwnedRequest`. -/
structure OwnedRequest where
  host : Bytes
  port : UInt16
  method : HttpMethod
  target : Bytes
  body : Bytes
  headers : Fields
  options : HttpClientOptions
  deadline : Nat
  queueDeadline : Option Nat := none

/-- How taking a connection for an attempt ends: `acquireFrom` gives a client or none, and
`acquireManaged` may also refuse with an error or throw. -/
inductive Leased where
  | granted (reused : Bool)
  | refused (error : NetworkError)
  | thrown (error : SystemError)

/-- What happens around one attempt: what the loop reads and what its awaits end with. -/
structure Around where
  /-- The await before the guards throws: the `post` of a second attempt, or the one for the
  cancellation state. -/
  thrown : Option SystemError := none
  stopping : Bool := false
  cancelled : Bool := false
  now : Nat
  /-- The clock where the attempt has to queue for a managed connection. -/
  queuedAt : Option Nat := none
  lease : Leased
  /-- What `requestUntil` returns or throws. -/
  outcome : Except SystemError HttpClientResult
  stoppingAfter : Bool := false

/-- A request given to a client, with what came of it. -/
structure Sent where
  request : OwnedRequest
  reused : Bool
  outcome : Except SystemError HttpClientResult

/-- A finished request: the attempts that reached a client, and what the caller gets. -/
structure Done where
  sent : List Sent
  result : HttpClientResult

def Done.after (s : Sent) (d : Done) : Done := { d with sent := s :: d.sent }

/-- The result that stands at the head of each attempt. -/
def unsent : HttpClientResult := { requestDisposition := .hNotSent }

def unsentError (error : NetworkError) : HttpClientResult := { unsent with error }

/-- `HTTP 连接池请求期限已过`, which the guards of both loops report. -/
def poolDeadline : NetworkError :=
  { code := .hTimedOut, message := "HTTP 连接池请求期限已过" }

/-- `if (!queueDeadline) queueDeadline = ...` in `acquireManaged`, where the attempt queues. -/
def OwnedRequest.queue (request : OwnedRequest) (queuedAt : Option Nat) : OwnedRequest :=
  match request.queueDeadline, queuedAt with
  | none, some now =>
    { request with queueDeadline := some (requestDeadline request.options.http2.queueTimeout now) }
  | _, _ => request

/-- The loop over attempts, which `doRequest` and `doManagedRequest` both have; the list holds
what happens around the attempts that are left. -/
def attempts (managed : Bool) : List Around → Bool → OwnedRequest → HttpClientResult → Done
  | [], _, _, result => ⟨[], result⟩
  | a :: left, first, request, _ =>
    match a.thrown with
    | some e => ⟨[], unsentError e.reported⟩
    | none =>
      if a.stopping || a.cancelled then ⟨[], unsentError poolCancelled⟩
      else if request.deadline ≤ a.now then ⟨[], unsentError poolDeadline⟩
      else
        let request := if managed then request.queue a.queuedAt else request
        match a.lease with
        | .thrown e => ⟨[], unsentError e.reported⟩
        | .refused error => ⟨[], unsentError (if managed then error else poolCancelled)⟩
        | .granted reused =>
          .after ⟨request, reused, a.outcome⟩ <|
            match a.outcome with
            | .error e => ⟨[], unsentError e.reported⟩
            | .ok result =>
              if a.stoppingAfter then ⟨[], { result with error := poolCancelled }⟩
              else if !first || !canRetry result request.method reused managed then ⟨[], result⟩
              else attempts managed left false request result

/-- `HttpClientPool::doManagedRequest`; `around` gives what happens around its two attempts. -/
def doManagedRequest (request : OwnedRequest) (around : Around × Around) : Done :=
  match request.options.tlsContext, request.options.http2.validationError with
  | none, _ =>
    ⟨[], unsentError
      { code := .hInvalidConfiguration, message := "HTTP/2 客户端必须配置 TLS 上下文" }⟩
  | some _, some error =>
    ⟨[], unsentError { code := .hInvalidConfiguration, message := error }⟩
  | some _, none => attempts true [around.1, around.2] true request unsent

/-- `HttpClientPool::doRequest`; `http2` is whether the module is built in. -/
def doRequest (http2 : Bool) (request : OwnedRequest) (around : Around × Around) : Done :=
  if http2 && (request.options.protocolMode = .hHttp2Only ||
      request.options.protocolMode = .hNegotiateHttp2) then
    doManagedRequest request around
  else attempts false [around.1, around.2] true request unsent

/-- `HttpClientPool::request`, called at the clock reading `now`. -/
def request (http2 : Bool) (host : Bytes) (port : UInt16) (method : HttpMethod)
    (target body : Bytes) (headers : Fields) (options : HttpClientOptions) (now : Nat)
    (around : Around × Around) : Done :=
  doRequest http2
    { host, port, method, target, body, headers, options,
      deadline := requestDeadline options.requestTimeout now } around

/-- The errors that a repeated request may have ended with. -/
def Transient (code : ErrorCode) : Prop :=
  code ∈ [.hEof, .hConnectionReset, .hConnectionRefused, .hConnectionAborted,
    .hNetworkUnreachable, .hHostUnreachable, .hBrokenPipe]

theorem transient_of (h : isTransientTransportError code = true) : Transient code := by
  cases code <;> simp_all [isTransientTransportError, Transient]

/-- What must be known of a failed attempt before the request is sent again. -/
def Evidence (managed reused : Bool) (r : HttpClientResult) : Prop :=
  r.error.isError = true ∧
    ((r.protocol = .hHttp1 ∧ reused = true ∧ r.status = 0 ∧ Transient r.error.code) ∨
      (managed = true ∧ r.requestDisposition = .hNotSent ∧ Transient r.error.code) ∨
      (r.protocol = .hHttp2 ∧ r.requestDisposition = .hNotProcessed ∧
        ∃ raw, r.error.http2 = some raw ∧
          ((r.error.code = .hHttp2StreamError ∧ 0 < raw.streamId ∧ raw.code = .hRefusedStream) ∨
            (r.error.code = .hHttp2ConnectionError ∧ raw.streamId = 0))))

/-- The attempt failed, and its failure allows another one. -/
def Repeatable (managed : Bool) (method : HttpMethod) (s : Sent) : Prop :=
  isHttpMethodIdempotent method = true ∧ ∃ r, s.outcome = .ok r ∧ Evidence managed s.reused r

theorem canRetry_spec (h : canRetry r method reused managed = true) :
    isHttpMethodIdempotent method = true ∧ Evidence managed reused r := by
  unfold canRetry at h
  split at h
  · cases h
  next hi =>
    simp only [Bool.or_eq_true, Bool.not_eq_true', not_or, Bool.not_eq_false] at hi
    refine ⟨hi.1, hi.2, ?_⟩
    split at h
    next hm =>
      simp only [Bool.and_eq_true, decide_eq_true_eq] at hm
      exact .inr (.inl ⟨hm.1.1, hm.1.2, transient_of hm.2⟩)
    · split at h
      next hp =>
        simp only [Bool.and_eq_true, decide_eq_true_eq] at h
        exact .inl ⟨hp, h.1.1, h.1.2, transient_of h.2⟩
      next hp =>
        have hp' : r.protocol = .hHttp2 := by
          cases hq : r.protocol with
          | hHttp1 => exact absurd hq hp
          | hHttp2 => rfl
        split at h
        · cases h
        next hd =>
          have hd := not_not.mp hd
          cases hr : r.error.http2 with
          | none => simp [hr] at h
          | some raw =>
            simp only [hr, Bool.or_eq_true, Bool.and_eq_true, decide_eq_true_eq] at h
            refine .inr (.inr ⟨hp', hd, raw, rfl, ?_⟩)
            rcases h with ⟨⟨hc, hs⟩, hw⟩ | h
            · exact .inl ⟨hc, hs, hw⟩
            · exact .inr h

/-- An attempt that never reached a client, with the result the caller then gets. -/
inductive Barred (managed : Bool) (deadline : Nat) (a : Around) : HttpClientResult → Prop
  | thrown (h : a.thrown = some e) : Barred managed deadline a (unsentError e.reported)
  | stopped (h : (a.stopping || a.cancelled) = true) :
      Barred managed deadline a (unsentError poolCancelled)
  | late (h : deadline ≤ a.now) : Barred managed deadline a (unsentError poolDeadline)
  | refused (h : a.lease = .refused error) :
      Barred managed deadline a (unsentError (if managed then error else poolCancelled))
  | lease (h : a.lease = .thrown e) : Barred managed deadline a (unsentError e.reported)

/-- An attempt whose own result, if it has one, is overruled after it. -/
inductive Overruled (a : Around) : HttpClientResult → Prop
  | thrown (h : a.outcome = .error e) : Overruled a (unsentError e.reported)
  | stopped (h : a.stoppingAfter = true) (ho : a.outcome = .ok r) :
      Overruled a { r with error := poolCancelled }

/-- The end of a sent attempt: its own result, or one that overrules it. -/
def Ended (a : Around) (s : Sent) (result : HttpClientResult) : Prop :=
  s.outcome = .ok result ∨ Overruled a result

/-- What one turn of the loop does: nothing is sent, or the request is sent and the loop ends, or
it is sent and may be sent again. -/
theorem attempts_cases (managed : Bool) (a : Around) (left : List Around) (first : Bool)
    (request : OwnedRequest) (result : HttpClientResult) :
    (∃ r, attempts managed (a :: left) first request result = ⟨[], r⟩ ∧
      Barred managed request.deadline a r) ∨
    ∃ s : Sent, s.request = (if managed then request.queue a.queuedAt else request) ∧
      s.outcome = a.outcome ∧
      ((∃ r, attempts managed (a :: left) first request result = ⟨[s], r⟩ ∧ Ended a s r) ∨
        ∃ r, first = true ∧ s.outcome = .ok r ∧
          canRetry r s.request.method s.reused managed = true ∧
          attempts managed (a :: left) first request result =
            .after s (attempts managed left false s.request r)) := by
  rw [attempts]
  split
  next e he => exact .inl ⟨_, rfl, .thrown he⟩
  split
  next hs => exact .inl ⟨_, rfl, .stopped hs⟩
  split
  next hd => exact .inl ⟨_, rfl, .late hd⟩
  dsimp only
  generalize hq : (if managed = true then request.queue a.queuedAt else request) = queued
  split
  next e he => exact .inl ⟨_, rfl, .lease he⟩
  next error he => exact .inl ⟨_, rfl, .refused he⟩
  next reused _ =>
    refine .inr ⟨⟨queued, reused, a.outcome⟩, rfl, rfl, ?_⟩
    split
    next e he => exact .inl ⟨_, rfl, .inr (.thrown he)⟩
    next r he =>
      split
      next hs => exact .inl ⟨_, rfl, .inr (.stopped hs he)⟩
      split
      · exact .inl ⟨_, rfl, .inl he⟩
      next hc =>
        simp only [Bool.or_eq_true, Bool.not_eq_true', not_or, Bool.not_eq_false] at hc
        exact .inr ⟨r, hc.1, he, hc.2, rfl⟩

/-- The request of an attempt is the caller's, its absolute deadline included; only the queue
deadline may have been set since. -/
def Carries (request : OwnedRequest) (s : Sent) : Prop :=
  s.request = { request with queueDeadline := s.request.queueDeadline } ∧
    (request.queueDeadline.isSome → s.request.queueDeadline = request.queueDeadline)

theorem queue_carries (request : OwnedRequest) (managed : Bool) (queuedAt : Option Nat) (s : Sent)
    (h : s.request = if managed then request.queue queuedAt else request) :
    Carries request s := by
  unfold OwnedRequest.queue at h
  split at h
  · split at h
    next hn =>
      rw [Carries, h]
      exact ⟨rfl, by simp [hn]⟩
    · exact ⟨by rw [h], fun _ => by rw [h]⟩
  · exact ⟨by rw [h], fun _ => by rw [h]⟩

theorem Carries.trans {q : OwnedRequest} (h : Carries q s) (h' : Carries s.request t) :
    Carries q t := by
  refine ⟨?_, fun hq => ?_⟩
  · rw [h'.1, h.1]
  · have hs := h.2 hq
    rw [h'.2 (hs ▸ hq), hs]

/-- Whose result the caller gets: that of the last attempt, or one that stands for it. -/
def Delivered (managed : Bool) (request : OwnedRequest) (around : Around × Around) :
    List Sent → HttpClientResult → Prop
  | [], r => Barred managed request.deadline around.1 r
  | [s], r =>
    Ended around.1 s r ∨ Repeatable managed request.method s ∧ Barred managed request.deadline around.2 r
  | [_, s], r => Ended around.2 s r
  | _, _ => False

/-- What a finished request may look like. -/
structure Safe (managed : Bool) (request : OwnedRequest) (around : Around × Around)
    (d : Done) : Prop where
  count : d.sent.length ≤ 2
  carries : ∀ s ∈ d.sent, Carries request s
  again : ∀ s t, d.sent = [s, t] → Repeatable managed request.method s ∧ Carries s.request t
  delivered : Delivered managed request around d.sent d.result

theorem attempts_safe (managed : Bool) (around : Around × Around) (request : OwnedRequest)
    (result : HttpClientResult) :
    Safe managed request around
      (attempts managed [around.1, around.2] true request result) := by
  rcases attempts_cases managed around.1 [around.2] true request result with
    ⟨r, hd, hb⟩ | ⟨s, hs, ho, ⟨r, hd, he⟩ | ⟨r, _, hr, hc, hd⟩⟩
  · rw [hd]
    exact ⟨Nat.zero_le _, fun _ h => absurd h List.not_mem_nil, fun _ _ h => by simp at h, hb⟩
  · have hq := queue_carries _ _ _ s hs
    rw [hd]
    refine ⟨by simp, fun t ht => ?_, fun _ _ h => by simp at h, .inl he⟩
    rw [List.mem_singleton.mp ht]
    exact hq
  · have hq := queue_carries _ _ _ s hs
    have hm : s.request.method = request.method := by rw [hq.1]
    have hl : s.request.deadline = request.deadline := by rw [hq.1]
    rw [hm] at hc
    have hcan := canRetry_spec hc
    have hrepeatable : Repeatable managed request.method s := ⟨hcan.1, r, hr, hcan.2⟩
    rw [hd]
    -- The second turn may not go on to a third: `first` is false in it.
    rcases attempts_cases managed around.2 [] false s.request r with
      ⟨r', hd', hb⟩ | ⟨t, ht, _, ⟨r', hd', he⟩ | ⟨_, hf, _⟩⟩
    · rw [hd']
      refine ⟨by simp [Done.after], fun u hu => ?_, fun _ _ h => by simp [Done.after] at h, ?_⟩
      · rw [List.mem_singleton.mp hu]
        exact hq
      · exact .inr ⟨hrepeatable, hl ▸ hb⟩
    · have hq' := queue_carries _ _ _ t ht
      rw [hd']
      refine ⟨by simp [Done.after], fun u hu => ?_, fun a b h => ?_, he⟩
      · rcases List.mem_cons.mp hu with rfl | hu
        · exact hq
        · rw [List.mem_singleton.mp hu]
          exact hq.trans hq'
      · simp only [Done.after, List.cons.injEq, and_true] at h
        obtain ⟨rfl, rfl⟩ := h
        exact ⟨hrepeatable, hq'⟩
    · cases hf

/-- Whether a request goes through the managed half of the pool. -/
def isManaged (http2 : Bool) (options : HttpClientOptions) : Bool :=
  http2 && (options.protocolMode = .hHttp2Only || options.protocolMode = .hNegotiateHttp2)

/-- A managed request without a TLS context, or with options that do not validate. -/
def Misconfigured (options : HttpClientOptions) : Prop :=
  options.tlsContext = none ∨ options.http2.validationError ≠ none

/-- At most two attempts, the second one only for an idempotent method and on evidence that the
first did nothing, with the same request and deadlines; the caller gets the result of the last
attempt unless a stop, a cancellation, the deadline or a failed lease stands in its place. -/
theorem retry_safe (http2 : Bool) (host : Bytes) (port : UInt16) (method : HttpMethod)
    (target body : Bytes) (headers : Fields) (options : HttpClientOptions) (now : Nat)
    (around : Around × Around) :
    Safe (isManaged http2 options)
        { host, port, method, target, body, headers, options,
          deadline := requestDeadline options.requestTimeout now } around
        (request http2 host port method target body headers options now around) ∨
      (isManaged http2 options = true ∧ Misconfigured options ∧
        ∃ message, request http2 host port method target body headers options now around =
          ⟨[], unsentError { code := .hInvalidConfiguration, message }⟩) := by
  unfold request doRequest
  split
  next hm =>
    have hm' : isManaged http2 options = true := hm
    unfold doManagedRequest
    dsimp only
    split
    next ht => exact .inr ⟨hm', .inl ht, _, rfl⟩
    next he => exact .inr ⟨hm', .inr (by simp [he]), _, rfl⟩
    · rw [hm']
      exact .inl (attempts_safe ..)
  next hm =>
    have hm' : isManaged http2 options = false := Bool.eq_false_iff.mpr hm
    rw [hm']
    exact .inl (attempts_safe ..)

/-- A GET that a stale connection reset, with the deadline over before it can be repeated. -/
def overtaken : Around × Around :=
  ({ now := 0, lease := .granted true,
     outcome := .ok { error := { code := .hConnectionReset } } },
   { now := 40000, lease := .granted false, outcome := .ok { status := 200 } })

theorem last_result_replaced :
    (request false [] 80 .hGet [] [] [] {} 0 overtaken).sent.map (·.outcome.toOption) =
        [some { error := { code := .hConnectionReset } }] ∧
      (request false [] 80 .hGet [] [] [] {} 0 overtaken).result =
        { error := poolDeadline, requestDisposition := .hNotSent } ∧
      (request false [] 80 .hGet [] [] [] {} 0 overtaken).sent.getLast?.bind
          (·.outcome.toOption) ≠
        some (request false [] 80 .hGet [] [] [] {} 0 overtaken).result := by
  decide

end Hical.Client
