import Hical.Http2.Ages
import Hical.Http2.ClientSession

namespace Hical.Http2
open Hical.Client

namespace ClientSession
variable {H : Type}

/-- The peer does not process a stream: it was refused, or is behind the last stream of a GOAWAY. -/
def Refused (s : ClientSession H) (id : Int) : Prop := id ∈ s.refused ∨ ∃ last ∈ s.goaways, last < id

def Awaits (s : ClientSession H) (id : Int) : Prop :=
  ∃ k c, s.find id = some k ∧ s.made[k]? = some c ∧ c.responseReady = false

/-- No header block is open on a stream. -/
def Still (r : Receive H) (i : Nat) : Prop :=
  ∀ id e, r.find id = some e → e.stream = i → e.pendingHeaders = none

/-- What stays of a session for a response that was received, and for those that were not sent or not
processed. -/
structure Steady (o : Change) (s s' : ClientSession H) : Prop where
  ages : Ages o s.receive s'.receive
  initial : ∀ i, (s.receive.stream i).initialSealed = true →
    s'.initialHeaders i = s.initialHeaders i
  trailers : ∀ i, i < s.receive.made → (s.receive.stream i).bodyComplete = true →
    Still s.receive i → s'.trailers i = s.trailers i
  next : s.nextStreamId ≤ s'.nextStreamId
  refused : s.refused ⊆ s'.refused
  goaways : s.goaways ⊆ s'.goaways
  queued : ∀ id ∈ s'.queued, id ∈ s.queued ∨ s.nextStreamId ≤ id
  written : ∀ id ∈ s'.written, id ∈ s.written ∨ id ∈ s.queued ∨ s.nextStreamId ≤ id

theorem Refused.mono {s s' : ClientSession H} {id : Int} (h : Steady o s s') (hr : s.Refused id) : s'.Refused id := by
  rcases hr with hr | ⟨last, hl, hlt⟩
  · exact .inl (h.refused hr)
  · exact .inr ⟨last, h.goaways hl, hlt⟩

/-- What the result of a request that was not processed rests on: the peer's word for it will do, and what
was so of a stream stays so. -/
structure Ground (H : Type) where
  holds : ClientSession H → Int → Prop
  refused : ∀ {s id}, s.Refused id → holds s id
  stays : ∀ {o} {s s' : ClientSession H} {id}, Steady o s s' → id < s.nextStreamId → holds s id →
    holds s' id

section Facts
variable (api : ResponseApi H) (g : Ground H)

/-- A response that was received whole, as it stands in its context and on its stream. -/
structure Ready (s : ClientSession H) (c : Context H) (h : Heard H) : Prop where
  ready : c.responseReady = true
  heard : c.heard = some h
  error : c.result.error.isError = false
  body : Delimited h.terms h.log c.result.body
  status : c.result.status = statusOf api h.initialHeaders
  headers : c.result.headers = fieldsOf api h.initialHeaders
  trailers : c.result.trailers = fieldsOf api h.trailers
  terms : h.terms = s.receive.terms c.stream
  log : h.log <+: (s.receive.objects c.stream).log
  initialHeaders : s.initialHeaders c.stream = h.initialHeaders
  lastHeaders : s.trailers c.stream = h.trailers
  initialSealed : (s.receive.stream c.stream).initialSealed = true
  complete : (s.receive.stream c.stream).bodyComplete = true
  completedAt : (s.receive.stream c.stream).bodyCompletedAt = h.completedAt
  still : Still s.receive c.stream

/-- The header of a response is in its context from where it is sealed. -/
structure Copied (s : ClientSession H) (c : Context H) : Prop where
  before : (s.receive.stream c.stream).initialSealed = false →
    c.result.status = 0 ∧ c.result.headers = []
  behind : (s.receive.stream c.stream).initialSealed = true →
    c.result.status = statusOf api (s.initialHeaders c.stream) ∧
      c.result.headers = fieldsOf api (s.initialHeaders c.stream) ∧ c.result.status ≠ 0
  trailers : c.responseReady = false → c.result.trailers = []

structure ContextOk (s : ClientSession H) (k : Nat) (c : Context H) : Prop where
  made : c.stream < s.receive.made
  ready : c.responseReady = true → ∃ h, Ready api s c h
  sent : c.result.requestDisposition ≠ .hNotSent
  processed : c.result.requestDisposition = .hNotProcessed →
    g.holds s (s.receive.stream c.stream).id
  copied : ∀ id, s.find id = some k → Copied api s c

/-- What a result says is so. -/
structure Outcome (s : ClientSession H) (r : ClientRequest) (result : HttpClientResult) : Prop where
  success : result.error.isError = false → ∃ k c h, r.context = some k ∧ s.made[k]? = some c ∧
    r.opened = some (s.receive.stream c.stream).id ∧ c.result = result ∧ Ready api s c h ∧
    h.completedAt ≤ r.deadline
  unsent : result.requestDisposition = .hNotSent → ∀ id, r.opened = some id →
    id ∉ s.queued ∧ id ∉ s.written
  unprocessed : result.requestDisposition = .hNotProcessed →
    ∃ id, r.opened = some id ∧ g.holds s id

structure RequestOk (s : ClientSession H) (r : ClientRequest) : Prop where
  opened : ∀ id, r.opened = some id → id < s.nextStreamId
  context : ∀ k, r.context = some k → ∃ c, s.made[k]? = some c ∧
    r.opened = some (s.receive.stream c.stream).id
  admission : r.progress = .admission → r.context = none ∧ r.opened = none
  waiting : ∀ k, r.progress = .body k → r.context = some k
  returned : ∀ result, r.progress = .returned result → Outcome api g s r result
  thrown : ∀ message, r.progress ≠ .thrown message

/-- The receiver, the numbers of the streams and the errors of the session. -/
structure Based (s : ClientSession H) : Prop where
  role : s.receive.role = .hClient
  options : s.options.validationError = none
  inv : Inv s.receive
  terminal : s.receive.codec.terminalError.isError = true → s.receive.streams = []
  failed : s.error.isError = true → s.receive.connectionError.isError = true
  next : 0 < s.nextStreamId
  last : s.lastStreamId = 2147483647 ∨ s.lastStreamId ∈ s.goaways
  streams : ∀ i, i < s.receive.made → (s.receive.stream i).id < s.nextStreamId ∧
    (s.receive.stream i).id ≤ 2147483647 ∧ (s.receive.stream i).incomingKind = .hResponse ∧
    (s.receive.stream i).Honest
  apart : ∀ i j, i < s.receive.made → j < s.receive.made →
    (s.receive.stream i).id = (s.receive.stream j).id → i = j
  queued : ∀ id, id ∈ s.queued ∨ id ∈ s.written → id < s.nextStreamId

/-- The session, its contexts and its requests fit together. -/
structure Sound (s : ClientSession H) : Prop extends Based s where
  listed : ∀ x ∈ s.contexts, s.find x.1 = some x.2
  linked : ∀ id k, s.find id = some k → ∃ c, s.made[k]? = some c ∧
    (s.receive.stream c.stream).id = id
  contexts : ∀ k c, s.made[k]? = some c → ContextOk api g s k c
  requests : ∀ (i : Nat) r, s.requests[i]? = some r → RequestOk api g s r
  own : ∀ (i j : Nat) (r r' : ClientRequest) (k : Nat), s.requests[i]? = some r →
    s.requests[j]? = some r' → r.context = some k → r'.context = some k → i = j

end Facts

/-- What may be noted in a context whose response is not ready, where its stream counts as refused or
not. -/
structure Noted (refused : Prop) (c c' : Context H) : Prop where
  stream : c'.stream = c.stream
  heard : c'.heard = c.heard
  ready : c'.responseReady = c.responseReady
  frozen : c.responseReady = true → c'.result = c.result
  status : c'.result.status = c.result.status
  headers : c'.result.headers = c.result.headers
  trailers : c'.result.trailers = c.result.trailers
  disposition : c'.result.requestDisposition = c.result.requestDisposition ∨
    c'.result.requestDisposition = .hNotProcessed ∧ refused

/-- What the handlers do to a session, where neither a header is sealed nor a response gets ready:
streams get older, contexts leave the table, and errors are noted. -/
structure Turn (g : Ground H) (s s' : ClientSession H) : Prop extends Steady .nothing s s' where
  options : s'.options = s.options
  requests : s'.requests = s.requests
  number : s'.nextStreamId = s.nextStreamId
  inv : Inv s.receive → Inv s'.receive
  copies : s'.initialHeaders = s.initialHeaders
  sent : ∀ id, id ∈ s'.queued ∨ id ∈ s'.written → id ∈ s.queued ∨ id ∈ s.written
  failed : (s.error.isError = true → s.receive.connectionError.isError = true) →
    s'.error.isError = true → s'.receive.connectionError.isError = true
  last : s.lastStreamId = 2147483647 ∨ s.lastStreamId ∈ s.goaways →
    s'.lastStreamId = 2147483647 ∨ s'.lastStreamId ∈ s'.goaways
  kept : ∀ id k, s'.find id = some k → s.find id = some k
  listed : (∀ x ∈ s.contexts, s.find x.1 = some x.2) → ∀ x ∈ s'.contexts, s'.find x.1 = some x.2
  length : s'.made.length = s.made.length
  noted : ∀ (k : Nat) c c', s.made[k]? = some c → s'.made[k]? = some c' →
    c.stream < s.receive.made → (s.receive.stream c.stream).id < s.nextStreamId →
    Noted (g.holds s' (s.receive.stream c.stream).id) c c'

theorem Still.ages {r r' : Receive H} (h : Still r i) (ha : Ages o r r') (hi : i < r.made)
    (hc : (r.stream i).bodyComplete = true) : Still r' i := by
  intro id e' hf hs
  cases hp : e'.pendingHeaders with
  | none => rfl
  | some x =>
    have hp' : e'.pendingHeaders.isSome = true := by
      rw [hp]
      rfl
    rcases ha.pending id e' hf (hs ▸ hi) hp' with ⟨e, hf₀, hs₀, hp₀⟩ | hn
    · rw [h id e hf₀ (hs₀.trans hs)] at hp₀
      cases hp₀
    · rw [hs, hc] at hn
      cases hn

section Steadiness
variable {g : Ground H} {api : ResponseApi H} {s s' : ClientSession H} {c c' : Context H} {o : Change}

theorem Steady.id (h : Steady o s s') (hi : i < s.receive.made) :
    (s'.receive.stream i).id = (s.receive.stream i).id := by
  refine (h.ages.older i hi).id.trans ?_
  rw [Receive.sealing]
  split
  · rfl
  · rfl

theorem Ready.steady (h : Ready api s c x) (hs : Steady o s s') (hi : c.stream < s.receive.made)
    (hn : c'.stream = c.stream ∧ c'.heard = c.heard ∧ c'.responseReady = c.responseReady ∧
      c'.result = c.result) : Ready api s' c' x := by
  obtain ⟨hstream, hheard, hready, hresult⟩ := hn
  have hseal : s.receive.sealing o c.stream = s.receive.stream c.stream := by
    rw [Receive.sealing]
    split
    · rw [← h.initialSealed]
    · rfl
  have hold := hs.ages.older _ hi
  rw [hseal] at hold
  obtain ⟨hlog, hhead⟩ := hs.ages.heard _ hi
  obtain ⟨hc, hat⟩ := hold.complete h.complete
  refine ⟨hready.trans h.ready, hheard.trans h.heard, ?_, ?_, ?_, ?_, ?_, ?_, ?_, ?_, ?_, ?_, ?_, ?_, ?_⟩
  · rw [hresult]
    exact h.error
  · rw [hresult]
    exact h.body
  · rw [hresult]
    exact h.status
  · rw [hresult]
    exact h.headers
  · rw [hresult]
    exact h.trailers
  · rw [hstream, h.terms, Receive.terms, Receive.terms, hs.ages.role, hhead]
  · rw [hstream]
    exact h.log.trans hlog
  · rw [hstream]
    exact (hs.initial _ h.initialSealed).trans h.initialHeaders
  · rw [hstream]
    exact (hs.trailers _ hi h.complete h.still).trans h.lastHeaders
  · rw [hstream]
    exact hold.initialSealed.trans h.initialSealed
  · rw [hstream]
    exact hc
  · rw [hstream]
    exact hat.trans h.completedAt
  · rw [hstream]
    exact h.still.ages hs.ages hi h.complete

theorem Copied.steady (h : Copied api s c) (hs : Steady .nothing s s') (hn : Noted p c c')
    (hi : c.stream < s.receive.made) : Copied api s' c' := by
  have hsealed : (s'.receive.stream c'.stream).initialSealed =
      (s.receive.stream c.stream).initialSealed := by
    rw [hn.stream]
    exact (hs.ages.older _ hi).initialSealed
  refine ⟨fun hb => ?_, fun hb => ?_, fun hr => ?_⟩
  · rw [hn.status, hn.headers]
    exact h.before (hsealed ▸ hb)
  · rw [hsealed] at hb
    rw [hn.status, hn.headers, hn.stream, hs.initial _ hb]
    exact h.behind hb
  · rw [hn.trailers]
    exact h.trailers (hn.ready ▸ hr)

theorem ContextOk.steady (h : ContextOk api g s k c) (hs : Steady .nothing s s')
    (hlt : (s.receive.stream c.stream).id < s.nextStreamId)
    (hn : Noted (g.holds s' (s.receive.stream c.stream).id) c c')
    (hk : ∀ id, s'.find id = some k → s.find id = some k) : ContextOk api g s' k c' := by
  refine ⟨?_, fun hr => ?_, ?_, fun hd => ?_, fun id hf => (h.copied id (hk id hf)).steady hs hn h.made⟩
  · rw [hn.stream, hs.ages.made]
    exact h.made
  · rw [hn.ready] at hr
    obtain ⟨x, hx⟩ := h.ready hr
    exact ⟨x, hx.steady hs h.made ⟨hn.stream, hn.heard, hn.ready, hn.frozen hr⟩⟩
  · rcases hn.disposition with hd | ⟨hd, -⟩
    · rw [hd]
      exact h.sent
    · rw [hd]
      exact nofun
  · rw [hn.stream, hs.id h.made]
    rcases hn.disposition with hd' | ⟨-, hr⟩
    · exact g.stays hs hlt (h.processed (hd'.symm.trans hd))
    · exact hr

theorem Outcome.steady (h : Outcome api g s r result) (hs : Steady o s s')
    (hr : ∀ id, r.opened = some id → id < s.nextStreamId)
    (hc : ∀ (k : Nat) c, r.context = some k → s.made[k]? = some c → c.stream < s.receive.made ∧
      (c.responseReady = true → ∃ c', s'.made[k]? = some c' ∧ c'.stream = c.stream ∧
        c'.heard = c.heard ∧ c'.responseReady = c.responseReady ∧ c'.result = c.result)) :
    Outcome api g s' r result := by
  refine ⟨fun he => ?_, fun hd id hid => ?_, fun hd => ?_⟩
  · obtain ⟨k, c, x, hk, hm, ho, hres, hx, hle⟩ := h.success he
    obtain ⟨hlt, hkeep⟩ := hc k c hk hm
    obtain ⟨c', hm', hn⟩ := hkeep hx.ready
    refine ⟨k, c', x, hk, hm', ?_, hn.2.2.2.trans hres, hx.steady hs hlt hn, hle⟩
    rw [hn.1, hs.id hlt]
    exact ho
  · obtain ⟨hq, hw⟩ := h.unsent hd id hid
    refine ⟨fun hm => ?_, fun hm => ?_⟩
    · rcases hs.queued id hm with hm | hle
      · exact hq hm
      · exact absurd (hr id hid) (Int.not_lt.2 hle)
    · rcases hs.written id hm with hm | hm | hle
      · exact hw hm
      · exact hq hm
      · exact absurd (hr id hid) (Int.not_lt.2 hle)
  · obtain ⟨id, hid, hrefused⟩ := h.unprocessed hd
    exact ⟨id, hid, g.stays hs (hr id hid) hrefused⟩

theorem RequestOk.steady (h : RequestOk api g s r) (hs : Steady o s s')
    (hc : ∀ (k : Nat) c, r.context = some k → s.made[k]? = some c → c.stream < s.receive.made ∧
      ∃ c', s'.made[k]? = some c' ∧ c'.stream = c.stream ∧
        (c.responseReady = true → (∃ result, r.progress = .returned result) →
          c'.heard = c.heard ∧ c'.responseReady = c.responseReady ∧ c'.result = c.result)) :
    RequestOk api g s' r := by
  refine ⟨fun id hid => Int.lt_of_lt_of_le (h.opened id hid) hs.next, fun k hk => ?_, h.admission,
    h.waiting, fun result hr => ?_, h.thrown⟩
  · obtain ⟨c, hm, ho⟩ := h.context k hk
    obtain ⟨hlt, c', hm', hstream, -⟩ := hc k c hk hm
    refine ⟨c', hm', ?_⟩
    rw [hstream, hs.id hlt]
    exact ho
  · refine (h.returned result hr).steady hs h.opened fun k c hk hm => ?_
    obtain ⟨hlt, c', hm', hstream, hkeep⟩ := hc k c hk hm
    exact ⟨hlt, fun hready => ⟨c', hm', hstream, hkeep hready ⟨result, hr⟩⟩⟩

end Steadiness

section Turns
variable {g : Ground H} {api : ResponseApi H} {s s' s'' : ClientSession H}

theorem Noted.refl (p : Prop) (c : Context H) : Noted p c c :=
  ⟨rfl, rfl, rfl, fun _ => rfl, rfl, rfl, rfl, .inl rfl⟩

theorem Noted.trans {c c' c'' : Context H} (h : Noted p c c') (hp : p → q)
    (h' : Noted q c' c'') : Noted q c c'' := by
  refine ⟨h'.stream.trans h.stream, h'.heard.trans h.heard, h'.ready.trans h.ready, fun hr => ?_,
    h'.status.trans h.status, h'.headers.trans h.headers, h'.trailers.trans h.trailers, ?_⟩
  · exact (h'.frozen (h.ready.trans hr)).trans (h.frozen hr)
  · rcases h'.disposition with hd' | hd'
    · rcases h.disposition with hd | ⟨hd, hr⟩
      · exact .inl (hd'.trans hd)
      · exact .inr ⟨hd'.trans hd, hp hr⟩
    · exact .inr hd'

theorem Steady.turn (h : Steady o s s') (h' : Turn g s' s'') : Steady o s s'' := by
  refine ⟨h.ages.trans h'.ages, fun i hs => ?_, fun i hi hc hs => ?_, Int.le_trans h.next h'.next,
    fun id hid => h'.refused (h.refused hid), fun id hid => h'.goaways (h.goaways hid),
    fun id hid => ?_, fun id hid => ?_⟩
  · rw [h'.copies]
    exact h.initial i hs
  · have hi' : i < s'.receive.made := by
      rw [h.ages.made]
      exact Nat.lt_add_right _ hi
    have hc' := ((h.ages.older i hi).complete ((complete_sealing o _ i).trans hc)).1
    exact (h'.trailers i hi' hc' (hs.ages h.ages hi hc)).trans (h.trailers i hi hc hs)
  · rcases h'.queued id hid with hq | hle
    · exact h.queued id hq
    · exact .inr (Int.le_trans h.next hle)
  · rcases h'.written id hid with hw | hq | hle
    · exact h.written id hw
    · exact .inr (h.queued id hq)
    · exact .inr (.inr (Int.le_trans h.next hle))

theorem Steady.refl (s : ClientSession H) : Steady .nothing s s :=
  ⟨.refl _, fun _ _ => rfl, fun _ _ _ _ => rfl, Int.le_refl _, fun _ h => h, fun _ h => h,
    fun _ h => .inl h, fun _ h => .inl h⟩

theorem Turn.trans (h : Turn g s s') (h' : Turn g s' s'') : Turn g s s'' := by
  have hsteady := h.toSteady.turn h'
  refine ⟨hsteady, h'.options.trans h.options, h'.requests.trans h.requests, h'.number.trans h.number,
    fun hi => h'.inv (h.inv hi), h'.copies.trans h.copies,
    fun id hid => h.sent id (h'.sent id hid), fun hf => h'.failed (h.failed hf),
    fun hl => h'.last (h.last hl), fun id k hf => h.kept id k (h'.kept id k hf),
    fun hl => h'.listed (h.listed hl), h'.length.trans h.length, fun k c c'' hm hm'' hi hid => ?_⟩
  have hk : k < s'.made.length := by
    rw [h.length]
    exact (List.getElem?_eq_some_iff.1 hm).1
  have hm' : s'.made[k]? = some s'.made[k] := List.getElem?_eq_getElem hk
  have hn := h.noted k c _ hm hm' hi hid
  have hi' : (s'.made[k]).stream < s'.receive.made := by
    rw [hn.stream, h.ages.made]
    exact hi
  have hid' : (s.receive.stream c.stream).id < s'.nextStreamId := h.number ▸ hid
  have hn' := h'.noted k _ c'' hm' hm'' hi'
  rw [hn.stream, h.id hi] at hn'
  exact hn.trans (g.stays h'.toSteady hid') (hn' hid')

theorem Based.turn (hb : Based s) (h : Turn g s s') : Based s' := by
  have hid : ∀ i, i < s'.receive.made → i < s.receive.made := by
    intro i hi
    rw [h.ages.made] at hi
    exact hi
  refine ⟨h.ages.role.trans hb.role, h.options ▸ hb.options, h.inv hb.inv, h.ages.terminal hb.terminal,
    h.failed hb.failed, h.number ▸ hb.next, h.last hb.last, fun i hi => ?_, fun i j hi hj hn => ?_,
    fun id hq => ?_⟩
  · obtain ⟨h₁, h₂, h₃, h₄⟩ := hb.streams i (hid i hi)
    have hold := h.ages.older i (hid i hi)
    rw [h.id (hid i hi), h.number]
    exact ⟨h₁, h₂, hold.kind.trans h₃, hold.honest h₄⟩
  · rw [h.id (hid i hi), h.id (hid j hj)] at hn
    exact hb.apart i j (hid i hi) (hid j hj) hn
  · rw [h.number]
    exact hb.queued id (h.sent id hq)

theorem Sound.change (hs : Sound api g s) (h : Steady o s s') (hb : Based s')
    (hrequests : s'.requests = s.requests) (hkept : ∀ id k, s'.find id = some k → s.find id = some k)
    (hlisted : ∀ x ∈ s'.contexts, s'.find x.1 = some x.2) (hlength : s'.made.length = s.made.length)
    (hc : ∀ (k : Nat) c c', s.made[k]? = some c → s'.made[k]? = some c' → c'.stream = c.stream ∧
      ContextOk api g s' k c' ∧ (c.responseReady = true → (∃ (i : Nat) (r : ClientRequest) (result : _),
        s.requests[i]? = some r ∧ r.context = some k ∧ r.progress = .returned result) →
          c'.heard = c.heard ∧ c'.responseReady = c.responseReady ∧ c'.result = c.result)) :
    Sound api g s' := by
  have hmade : ∀ (k : Nat) c', s'.made[k]? = some c' → ∃ c, s.made[k]? = some c := by
    intro k c' hm
    have hk := (List.getElem?_eq_some_iff.1 hm).1
    rw [hlength] at hk
    exact ⟨_, List.getElem?_eq_getElem hk⟩
  have hmade' : ∀ (k : Nat) c, s.made[k]? = some c → ∃ c', s'.made[k]? = some c' := by
    intro k c hm
    have hk := (List.getElem?_eq_some_iff.1 hm).1
    rw [← hlength] at hk
    exact ⟨_, List.getElem?_eq_getElem hk⟩
  refine ⟨hb, hlisted, fun id k hf => ?_, fun k c' hm' => ?_, fun i r hr => ?_,
    fun i j r r' k hr hr' => ?_⟩
  · obtain ⟨c, hm, hid⟩ := hs.linked id k (hkept id k hf)
    obtain ⟨c', hm'⟩ := hmade' k c hm
    refine ⟨c', hm', ?_⟩
    rw [(hc k c c' hm hm').1, h.id (hs.contexts k c hm).made]
    exact hid
  · obtain ⟨c, hm⟩ := hmade k c' hm'
    exact (hc k c c' hm hm').2.1
  · rw [hrequests] at hr
    refine (hs.requests i r hr).steady h fun k c hk hm => ?_
    obtain ⟨c', hm'⟩ := hmade' k c hm
    obtain ⟨hstream, -, hkeep⟩ := hc k c c' hm hm'
    exact ⟨(hs.contexts k c hm).made, c', hm', hstream,
      fun hready ⟨result, hp⟩ => hkeep hready ⟨i, r, result, hr, hk, hp⟩⟩
  · rw [hrequests] at hr hr'
    exact hs.own i j r r' k hr hr'

theorem Sound.turn (hs : Sound api g s) (h : Turn g s s') : Sound api g s' := by
  refine hs.change h.toSteady (hs.toBased.turn h) h.requests h.kept (h.listed hs.listed) h.length
    fun k c c' hm hm' => ?_
  have hok := hs.contexts k c hm
  have hid := (hs.streams c.stream hok.made).1
  have hn := h.noted k c c' hm hm' hok.made hid
  exact ⟨hn.stream, hok.steady h.toSteady hid hn fun id => h.kept id k,
    fun hready _ => ⟨hn.heard, hn.ready, hn.frozen hready⟩⟩

end Turns

end ClientSession

end Hical.Http2
