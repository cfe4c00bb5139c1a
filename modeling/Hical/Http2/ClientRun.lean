import Hical.Http2.ClientRequests
import Hical.Http2.Refusal
import Hical.Lib.Runs

namespace Hical.Http2
open Hical.Client

namespace ClientSession
variable {H : Type} {g : Ground H} {api : ResponseApi H} {maxSize : Nat} {s s' : ClientSession H} {r : ClientRequest}
  {i k : Nat} {result : HttpClientResult}

structure Steps (api : ResponseApi H) (g : Ground H) (s s' : ClientSession H) : Prop where
  sound : Sound api g s'
  returned : ∀ (i : Nat) r result, s.requests[i]? = some r → r.progress = .returned result →
    s'.requests[i]? = some r

theorem Steps.of_requests (hs : Sound api g s') (hr : s'.requests = s.requests) : Steps api g s s' := by
  refine ⟨hs, fun i r result hi _ => ?_⟩
  rw [hr]
  exact hi

theorem Steps.of_turn (hs : Sound api g s) (h : Turn g s s') : Steps api g s s' :=
  .of_requests (hs.turn h) h.requests

theorem Steps.of_settles {p : Progress → Prop} (h : Settles api g p i s s') (hr : s.requests[i]? = some r)
    (hp : ∀ result, r.progress ≠ .returned result) : Steps api g s s' := by
  refine ⟨h.sound, fun j r' result hj hp' => ?_⟩
  by_cases hji : j = i
  · subst hji
    cases hr.symm.trans hj
    exact absurd hp' (hp result)
  · exact (h.only j hji).trans hj

theorem Sound.owner (hs : Sound api g s) (hr : s.requests[i]? = some r) (hp : r.progress = .body k) :
    Owner s i r k := by
  have hok := hs.requests i r hr
  have hk := hok.waiting k hp
  refine ⟨hk, hok.context k hk, fun j r' hj hji hk' => hji (hs.own j i r' r k hj hr hk' hk), r, hr,
    fun result hres => ?_⟩
  rw [hp] at hres
  cases hres

theorem steps_request (hs : Sound api g s) (deadline : Nat) (headResponse : Bool) :
    Steps api g s { s with requests := s.requests ++ [{ deadline, headResponse }] } := by
  generalize hr₀ : ({ deadline, headResponse } : ClientRequest) = r₀
  have hcontext : r₀.context = none := by rw [← hr₀]
  have hst : Steady .nothing s { s with requests := s.requests ++ [r₀] } := { Steady.refl s with }
  have hget : ∀ (i : Nat) r, (s.requests ++ [r₀])[i]? = some r → s.requests[i]? = some r ∨ r = r₀ := by
    intro i r hi
    rw [List.getElem?_append] at hi
    split at hi
    · exact .inl hi
    · rw [List.getElem?_singleton] at hi
      split at hi
      · cases hi
        exact .inr rfl
      · cases hi
  refine ⟨⟨{ hs.toBased with }, hs.listed, hs.linked, fun k c hm => ?_, fun i r hi => ?_,
    fun i j r r' k hi hj hk hk' => ?_⟩, fun i r result hi _ => ?_⟩
  · have hok := hs.contexts k c hm
    exact hok.steady hst (hs.streams _ hok.made).1 (.refl _ c) fun _ hf => hf
  · rcases hget i r hi with hi | rfl
    · refine (hs.requests i r hi).steady hst fun k c _ hm => ?_
      exact ⟨(hs.contexts k c hm).made, c, hm, rfl, fun _ _ => ⟨rfl, rfl, rfl⟩⟩
    · rw [← hr₀]
      exact ⟨nofun, nofun, fun _ => ⟨rfl, rfl⟩, nofun, fun _ hp => (nomatch hp), nofun⟩
  · rcases hget i r hi with hi | rfl
    · rcases hget j r' hj with hj | rfl
      · exact hs.own i j r r' k hi hj hk hk'
      · rw [hcontext] at hk'
        cases hk'
    · rw [hcontext] at hk
      cases hk
  · exact (List.getElem?_append_left (List.getElem?_eq_some_iff.1 hi).1).trans hi

/-- Where the codec reports as refused a stream whose response is awaited, there is a ground for it. -/
def Grounded (g : Ground H) (s : ClientSession H) : ClientEvent → Prop
  | .streamClose id code => code = .hRefusedStream → s.Awaits id → g.holds (s.unqueue id) id
  | .error error => ∀ info, error.http2 = some info → 0 < info.streamId → info.code = .hRefusedStream →
      s.Awaits info.streamId → g.holds s info.streamId
  | _ => True

theorem steps_step (hs : Sound api g s) (event : ClientEvent) (hg : s.Grounded g event) :
    Steps api g s (s.step api maxSize event) := by
  cases event with
  | request deadline headResponse => exact steps_request hs deadline headResponse
  | proceed i a =>
    rw [step, onRequest]
    split
    · next r hr =>
      split
      · next hp =>
        refine .of_settles (settles_proceed hs hr hp a) hr fun result hres => ?_
        rw [hp] at hres
        cases hres
      · exact .of_requests hs rfl
    · exact .of_requests hs rfl
  | wake i error =>
    rw [step, onRequest]
    split
    · next r hr =>
      split
      · next k hp =>
        refine .of_settles (settles_wake hs (hs.owner hr hp) error) hr fun result hres => ?_
        rw [hp] at hres
        cases hres
      · exact .of_requests hs rfl
    · exact .of_requests hs rfl
  | beginHeaders id => exact .of_turn hs (turn_onBeginHeaders hs.toBased id)
  | header id name value => exact .of_turn hs (turn_onHeader s id name value)
  | endHeaders block =>
    obtain ⟨h₁, h₂⟩ := sound_onEndHeaders hs block
    exact .of_requests h₁ h₂
  | data id bytes allocates result => exact .of_turn hs (turn_onData s maxSize id bytes allocates result)
  | endStream id result =>
    obtain ⟨h₁, h₂⟩ := sound_onEndStream hs id result
    exact .of_requests h₁ h₂
  | streamClose id code => exact .of_turn hs (turn_streamClose hs id code hg)
  | rstStream id code => exact .of_turn hs (turn_onReset s id code)
  | goaway last code => exact .of_turn hs (turn_goaway hs last code)
  | error error => exact .of_turn hs (turn_onError hs error hg)
  | close error => exact .of_turn hs (turn_close hs.toBased error)
  | quiet => exact .of_turn hs (turn_quiet s)
  | ended error => exact .of_turn hs (turn_fail s error)
  | write id =>
    rw [step]
    split
    · next hq => exact .of_turn hs (turn_write s id (List.contains_iff_mem.1 hq))
    · exact .of_requests hs rfl
  | others shared => exact .of_turn hs (turn_outside s shared s.receive.now)
  | clock now => exact .of_turn hs (turn_outside s s.receive.shared now)

theorem steps_run (hs : Sound api g s) (events : List ClientEvent)
    (hg : Runs.Along (step api maxSize) (Grounded g) s events) :
    Steps api g s (s.run api maxSize events) := by
  induction events generalizing s with
  | nil => exact .of_requests hs rfl
  | cons event events ih =>
    have hstep : Steps api g s (s.step api maxSize event) := steps_step hs event hg.1
    have hrun := ih hstep.sound hg.2
    exact ⟨hrun.sound, fun i r result hr hp => hrun.returned i r result (hstep.returned i r result hr hp) hp⟩

theorem sound_create {options : Http2Options} {budget : Http2Budget} {shared : Budgets}
    (h : create options budget shared = .ok s) : Sound api g s := by
  rw [create] at h
  split at h
  · cases h
  next hv =>
  cases h
  have hinv := inv_start (H := H) .hClient options budget shared
  have hbased : Based (H := H) { options, receive := { role := .hClient, options, budget, shared } } :=
    ⟨rfl, hv, hinv, fun _ => rfl, fun he => absurd he Bool.false_ne_true, Int.one_pos, .inl rfl,
      fun _ hi => absurd hi (Nat.not_lt_zero _), fun _ _ hi => absurd hi (Nat.not_lt_zero _),
      fun _ hid => hid.elim (fun h => absurd h List.not_mem_nil) fun h => absurd h List.not_mem_nil⟩
  refine ⟨hbased, fun x hx => absurd hx List.not_mem_nil, fun id k hf => ?_, fun k c hm => ?_,
    fun i r hr => ?_, fun i j r r' k hr => ?_⟩
  · cases hf
  · cases hm
  · cases hr
  · cases hr

/-- The response of a request, as its own stream has it: the final header block and the whole body came
before the deadline, and the result is theirs. -/
structure Response (api : ResponseApi H) (s : ClientSession H) (r : ClientRequest)
    (result : HttpClientResult) (j : Nat) (log : List Signal) : Prop where
  stream : r.opened = some (s.receive.stream j).id
  heard : log <+: (s.receive.objects j).log
  sealed : (s.receive.stream j).initialSealed = true
  complete : (s.receive.stream j).bodyComplete = true
  inTime : (s.receive.stream j).bodyCompletedAt ≤ r.deadline
  status : result.status = statusOf api (s.initialHeaders j)
  headers : result.headers = fieldsOf api (s.initialHeaders j)
  body : Delimited (s.receive.terms j) log result.body
  trailers : result.trailers = fieldsOf api (s.trailers j)

/-- What nghttp2 keeps to, and the bodies that are sent: a stream is closed as refused where the peer refused
it, or where nghttp2 gives up a request of which it wrote no frame, and no body fails as refused. -/
def Honest (s : ClientSession H) : ClientEvent → Prop
  | .streamClose id code => code = .hRefusedStream → s.Refused id ∨ id ∉ s.written
  | .error error => ∀ info, error.http2 = some info → 0 < info.streamId → info.code ≠ .hRefusedStream
  | _ => True

/-- nghttp2 gives up no request whose response is awaited before a frame of it is written, unless the peer
refused it. -/
def Sent (s : ClientSession H) : ClientEvent → Prop
  | .streamClose id code => code = .hRefusedStream → s.Awaits id → s.Refused id ∨ id ∈ s.written
  | _ => True

def anyGround : Ground H := ⟨fun _ _ => True, fun _ => trivial, fun _ _ _ => trivial⟩

def refusedGround : Ground H := ⟨Refused, fun h => h, fun hs _ h => h.mono hs⟩

def unsentGround : Ground H where
  holds s id := s.Refused id ∨ id ∉ s.queued ∧ id ∉ s.written
  refused := .inl
  stays := by
    rintro o s s' id hs hlt (h | ⟨hq, hw⟩)
    · exact .inl (h.mono hs)
    · refine .inr ⟨fun hm => ?_, fun hm => ?_⟩
      · exact (hs.queued id hm).elim hq fun hle => absurd hlt (Int.not_lt.2 hle)
      · rcases hs.written id hm with hm | hm | hle
        · exact hw hm
        · exact hq hm
        · exact absurd hlt (Int.not_lt.2 hle)

theorem grounded_any (s : ClientSession H) (event : ClientEvent) : s.Grounded anyGround event := by
  cases event with
  | streamClose id code => exact fun _ _ => trivial
  | error error => exact fun _ _ _ _ _ => trivial
  | _ => trivial

theorem Honest.grounded {event : ClientEvent} (h : s.Honest event) : s.Grounded unsentGround event := by
  cases event with
  | streamClose id code =>
    intro hcode _
    refine (h hcode).imp (fun hr => hr) fun hw => ⟨fun hm => ?_, hw⟩
    exact bne_iff_ne.1 (List.mem_filter.1 hm).2 rfl
  | error error => exact fun info hinfo hpos hcode _ => absurd hcode (h info hinfo hpos)
  | _ => trivial

theorem Honest.refused {event : ClientEvent} (h : s.Honest event) (hsent : s.Sent event) :
    s.Grounded refusedGround event := by
  cases event with
  | streamClose id code =>
    intro hcode hawaits
    rcases h hcode with hr | hw
    · exact hr
    · exact (hsent hcode hawaits).resolve_right hw
  | error error => exact fun info hinfo hpos hcode _ => absurd hcode (h info hinfo hpos)
  | _ => trivial

theorem along_any (s : ClientSession H) (events : List ClientEvent) :
    Runs.Along (step api maxSize) (Grounded anyGround) s events :=
  .of_invariant (I := fun _ => True) trivial fun s event _ _ => ⟨grounded_any s event, trivial⟩

/-- Every `requestOwned` of a session returns one result, which no later event alters: a success is the
response of its own stream, received whole before the deadline, and one that was not sent is not sent. One
that is said not to be processed was refused by the peer, or nothing of it was written; the latter only
where nghttp2 gives up a request by itself. -/
theorem request_outcome {options : Http2Options} {budget : Http2Budget} {shared : Budgets}
    (h : create options budget shared = .ok s) (events : List ClientEvent) (i : Nat) (r : ClientRequest)
    (hr : (s.run api maxSize events).requests[i]? = some r) :
    (∀ message, r.progress ≠ .thrown message) ∧
    (r.progress = .admission → ∀ a, ∃ r', ((s.run api maxSize events).step api maxSize
      (.proceed i a)).requests[i]? = some r' ∧ Goes r'.progress) ∧
    (∀ k, r.progress = .body k → ∀ error, ∃ r', ((s.run api maxSize events).step api maxSize
      (.wake i error)).requests[i]? = some r' ∧ Returns r'.progress) ∧
    ∀ result, r.progress = .returned result →
      (∀ later, ((s.run api maxSize events).run api maxSize later).requests[i]? = some r) ∧
      (result.error.isError = false → ∃ j log, Response api (s.run api maxSize events) r result j log) ∧
      (result.requestDisposition = .hNotSent → ∀ id, r.opened = some id →
        id ∉ (s.run api maxSize events).written) ∧
      (result.requestDisposition = .hNotProcessed → Runs.Along (step api maxSize) Honest s events →
        ∃ id, r.opened = some id ∧
          ((s.run api maxSize events).Refused id ∨ id ∉ (s.run api maxSize events).written) ∧
          (Runs.Along (step api maxSize) Sent s events → (s.run api maxSize events).Refused id)) := by
  have hrefused : ∀ g : Ground H, Runs.Along (step api maxSize) (Grounded g) s events →
      ∀ result, r.progress = .returned result → result.requestDisposition = .hNotProcessed →
        ∃ id, r.opened = some id ∧ g.holds (s.run api maxSize events) id := by
    intro g hg result hp hd
    have hrun : Steps api g s (s.run api maxSize events) := steps_run (sound_create h) events hg
    exact ((hrun.sound.requests i r hr).returned result hp).unprocessed hd
  have hrun : Steps api anyGround s (s.run api maxSize events) :=
    steps_run (sound_create h) events (along_any s events)
  have hs := hrun.sound
  have hok := hs.requests i r hr
  refine ⟨hok.thrown, fun hp a => ?_, fun k hp error => ?_, fun result hp => ⟨fun later => ?_, fun he => ?_,
    fun hd id hid => ?_, fun hd honest => ?_⟩⟩
  · rw [step, onRequest, hr]
    dsimp only
    rw [hp]
    exact (settles_proceed hs hr hp a).progress
  · rw [step, onRequest, hr]
    dsimp only
    rw [hp]
    exact (settles_wake hs (hs.owner hr hp) error).progress
  · exact (steps_run hs later (along_any _ later)).returned i r result hr hp
  · obtain ⟨k, c, x, -, hm, ho, rfl, hx, hle⟩ := (hok.returned result hp).success he
    refine ⟨c.stream, x.log, ho, hx.log, hx.initialSealed, hx.complete, ?_, ?_, ?_, ?_, ?_⟩
    · rw [hx.completedAt]
      exact hle
    · rw [hx.initialHeaders]
      exact hx.status
    · rw [hx.initialHeaders]
      exact hx.headers
    · rw [← hx.terms]
      exact hx.body
    · rw [hx.lastHeaders]
      exact hx.trailers
  · exact ((hok.returned result hp).unsent hd id hid).2
  · have hunsent := hrefused unsentGround (honest.imp fun _ _ => Honest.grounded) result hp hd
    obtain ⟨id, hid, hground⟩ := hunsent
    refine ⟨id, hid, hground.imp_right And.right, fun hsent => ?_⟩
    have hpeer := hrefused refusedGround ((honest.and hsent).imp fun _ _ h => h.1.refused h.2) result hp hd
    obtain ⟨id', hid', hground'⟩ := hpeer
    rw [hid] at hid'
    cases hid'
    exact hground'

/-- Header blocks that say nothing but that the response is fine. -/
def fineHeaders : ResponseApi Unit := { anyHeaders with status := fun _ => 200, fields := fun _ => [] }

def ample : Budgets :=
  { states := fun _ => { limits := fun _ => 2, streamReceiveLimit := 1 }, stateCount := 1 }

def ampleSession : ClientSession Unit :=
  { options := {}, receive := { role := .hClient, options := {}, budget := ⟨.hClient, 0⟩, shared := ample } }

/-- A request is answered with one byte, and the peer refuses another one. -/
def twoRequests : List ClientEvent :=
  [.request 10 false, .request 10 true, .proceed 0 { before := 0, behind := 0 },
    .proceed 1 { before := 0, behind := 0 }, .write 1, .write 3, .beginHeaders 1,
    .endHeaders ⟨1, .hResponse, 200, false⟩, .rstStream 3 .hRefusedStream, .streamClose 3 .hRefusedStream,
    .data 1 [104] true 0, .endStream 1 0, .wake 0 {}, .wake 1 {}]

def byteResult : HttpClientResult := { status := 200, body := [104], protocol := .hHttp2 }

/-- The result of a request whose stream is closed as refused. -/
def refusedResult (id : Int) : HttpClientResult :=
  { protocol := .hHttp2, requestDisposition := .hNotProcessed, error := protocolError id .hRefusedStream }

theorem request_outcome_two :
    (∃ j log, Response fineHeaders (ampleSession.run fineHeaders 1 twoRequests)
      ⟨10, false, .returned byteResult, some 0, some 1⟩ byteResult j log) ∧
    ∃ id, some (3 : Int) = some id ∧ (ampleSession.run fineHeaders 1 twoRequests).Refused id := by
  have hfirst := (@request_outcome Unit fineHeaders 1 ampleSession {} ⟨.hClient, 0⟩ ample rfl twoRequests 0
    ⟨10, false, .returned byteResult, some 0, some 1⟩ (by decide +kernel)).2.2.2 byteResult rfl
  have hsecond := (@request_outcome Unit fineHeaders 1 ampleSession {} ⟨.hClient, 0⟩ ample rfl twoRequests 1
    ⟨10, true, .returned (refusedResult 3), some 1, some 3⟩ (by decide +kernel)).2.2.2 (refusedResult 3) rfl
  refine ⟨hfirst.2.1 rfl, ?_⟩
  have hpeer : Refused (ampleSession.run fineHeaders 1 (twoRequests.take 9)) 3 := .inl (by decide +kernel)
  obtain ⟨id, hid, -, hrefused⟩ := hsecond.2.2.2 rfl
    ⟨trivial, trivial, trivial, trivial, trivial, trivial, trivial, trivial, trivial, fun _ => .inl hpeer,
      trivial, trivial, trivial, trivial, trivial⟩
  exact ⟨id, hid, hrefused ⟨trivial, trivial, trivial, trivial, trivial, trivial, trivial, trivial, trivial,
    fun _ _ => .inl hpeer, trivial, trivial, trivial, trivial, trivial⟩⟩

/-- A GOAWAY that is above every stream comes before a frame of a request is written, so that nghttp2 gives
the request up. -/
def givenUp : List ClientEvent :=
  [.request 10 false, .proceed 0 { before := 0, behind := 0 }, .goaway 2147483647 .hNoError,
    .streamClose 1 .hRefusedStream, .wake 0 {}]

/-- The peer refused nothing, and the request is said to be not processed. -/
theorem request_outcome_givenUp :
    ¬∀ (events : List ClientEvent) (i : Nat) r result,
      (ampleSession.run fineHeaders 1 events).requests[i]? = some r → r.progress = .returned result →
      Runs.Along (step fineHeaders 1) Honest ampleSession events →
      result.requestDisposition = .hNotProcessed →
      ∃ id, r.opened = some id ∧ (ampleSession.run fineHeaders 1 events).Refused id := by
  intro h
  obtain ⟨id, hid, hr⟩ := h givenUp 0 ⟨10, false, .returned (refusedResult 1), some 0, some 1⟩ (refusedResult 1)
    (by decide +kernel) rfl ⟨trivial, trivial, trivial, fun _ => .inr (by decide +kernel), trivial, trivial⟩ rfl
  cases hid
  rcases hr with hr | ⟨last, hl, hlt⟩
  · exact absurd hr (by decide +kernel)
  · have hall : ∀ last ∈ (ampleSession.run fineHeaders 1 givenUp).goaways, ¬last < 1 := by decide +kernel
    exact hall last hl hlt

end ClientSession

end Hical.Http2
