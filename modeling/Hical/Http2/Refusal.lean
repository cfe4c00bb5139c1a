import Hical.Http2.Received

namespace Hical.Http2

/-- The receiver of a new connection. -/
def Receive.start (role : Role) (options : Http2Options) (budget : Http2Budget) (shared : Budgets) :
    Receive H :=
  { role := role, options := options, budget := budget, shared := shared }

def Event.signal (api : HeadersApi H) (id : Int) (e : Entry H) : Event → Option Signal
  | .beginHeaders id' => if id' = id then some .begun else none
  | .endHeaders block _ =>
    if block.streamId = id then
      some (.block block.kind block.statusCode block.endStream
        (e.pendingHeaders.bind fun h => api.contentLength (api.sealBlock h).1))
    else none
  | .data id' bytes _ _ => if id' = id then some (.data bytes) else none
  | .endStream id' _ => if id' = id then some .ended else none
  | _ => none

/-- The stream failed, left the table and is not charged for more. -/
structure Refused (r : Receive H) (id : Int) (e : Entry H) (r' : Receive H) : Prop where
  gone : r'.find id = none
  closed : (r'.stream e.stream).protocolOpen = false
  error : (r'.stream e.stream).error.isError = true
  complete : (r'.stream e.stream).bodyComplete = true
  failed : (r.stream e.stream).bodyComplete = false → (r'.stream e.stream).bodyFailed = true
  charge : (r'.stream e.stream).receive.amount = (r.stream e.stream).receive.amount

section Refusals
variable {H : Type} {r r' : Receive H} {id : Int} {e : Entry H} (api : HeadersApi H) (maxSize : Nat)

theorem inv_start (role : Role) (options : Http2Options) (budget : Http2Budget) (shared : Budgets) :
    Inv (Receive.start (H := H) role options budget shared) := by
  refine ⟨fun id e hf => ?_, fun i hp => ?_, fun i hp => ?_, fun i hp => ?_, fun _ _ => rfl,
    fun _ => rfl, fun x hx => ?_, fun i hi => ?_⟩
  · cases hf
  · cases hp
  · cases hp
  · cases hp
  · cases hx
  · cases hi

theorem refused_reject (h : Inv r) (hf : r.find id = some e) (error : NetworkError) :
    Refused r id e (r.reject id error).1 := by
  obtain ⟨-, -, hm⟩ := h.entries id e hf
  have heq : (r.reject id error).1 = (r.erase id).failStream e.stream error := by
    rw [Receive.reject, hf]
  have hstream : (r.reject id error).1.stream e.stream =
      (((r.erase id).on e.stream).fail error).1.stream := by
    rw [heq, Receive.failStream, stream_settle, if_pos rfl]
  obtain ⟨h₁, h₂, h₃⟩ := failed_fail ((r.erase id).on e.stream) error hm.settled
  refine ⟨?_, ?_, ?_, ?_, ?_, ?_⟩
  · rw [heq]
    exact (find_erase r id id).trans (if_pos rfl)
  · rw [hstream]
    exact held_fail _ error
  · rw [hstream]
    exact h₁
  · rw [hstream]
    exact h₂
  · rw [hstream]
    exact h₃
  · rw [hstream]
    exact congrArg Lease.amount (quiet_fail ((r.erase id).on e.stream) error).receive

theorem objects_fail (h : Inv r) (hn : r.find (r.stream i).id = none) (error : NetworkError) :
    (r.fail error).objects i = r.objects i ∧ ∀ id, r.find id = none → (r.fail error).find id = none := by
  rw [Receive.fail]
  split
  · exact ⟨rfl, fun _ h => h⟩
  · dsimp only
    obtain ⟨⟨-, -, h₃, -, -⟩, -, -, hsame⟩ := failStreams
      (if error.isError = true then error else ⟨.hOperationAborted, "HTTP/2 连接接收已取消", none⟩)
      r.streams { r with
        connectionError := if error.isError = true then error
          else ⟨.hOperationAborted, "HTTP/2 连接接收已取消", none⟩, streams := [] }
    refine ⟨hsame i fun x hx hi => ?_, fun id _ => ?_⟩
    · have hx' := h.listed x hx
      rw [← (h.entries _ _ hx').2.1, hi, hn] at hx'
      cases hx'
    · rw [Receive.find, h₃]
      rfl

theorem refused_refuse (h : Inv r) (hf : r.find id = some e) (error : NetworkError) (result : Int) :
    Refused r id e (Receive.checkOperation { (r.reject id error).1 with
        codec := ((r.reject id error).1.codec.reset id result).1 }
      ((r.reject id error).1.codec.reset id result).2).1 := by
  obtain ⟨-, hname, -⟩ := h.entries id e hf
  have hr := refused_reject h hf error
  have hs := silent_reject h id error
  have hinv := h.silent hs
  have hid : ((r.reject id error).1.stream e.stream).id = id := (hs.quiet e.stream).id.trans hname
  generalize (r.reject id error).1 = q at hr hinv hid
  rw [Receive.checkOperation]
  split
  · have hq : Inv { q with codec := (q.codec.reset id result).1 } :=
      hinv.silent (.frame rfl rfl rfl rfl rfl hinv.dead)
    obtain ⟨hobj, hnone⟩ := objects_fail (i := e.stream) hq (by
      change q.find (q.stream e.stream).id = none
      rw [hid]
      exact hr.gone) ⟨.hHttp2ConnectionError, (q.codec.reset id result).2.message,
        some ⟨.hInternalError, 0⟩⟩
    have hstream := congrArg Object.stream hobj
    refine ⟨hnone id hr.gone, ?_, ?_, ?_, ?_, ?_⟩
    · exact (congrArg Http2Stream.protocolOpen hstream).trans hr.closed
    · exact (congrArg (fun s => s.error.isError) hstream).trans hr.error
    · exact (congrArg Http2Stream.bodyComplete hstream).trans hr.complete
    · exact fun hc => (congrArg Http2Stream.bodyFailed hstream).trans (hr.failed hc)
    · exact (congrArg (fun s => s.receive.amount) hstream).trans hr.charge
  · exact ⟨hr.gone, hr.closed, hr.error, hr.complete, hr.failed, hr.charge⟩

theorem absurd_next {e' : Entry H} {s' : Http2Stream} (h : Inv r) (hf : r.find id = some e)
    (hill : (r.phase e.stream).bind (fun ph => (r.terms e.stream).advance ph signal) = none)
    (hnext : Next (r.terms e.stream) e (r.stream e.stream) e' s' signal) : False := by
  obtain ⟨-, -, ⟨⟨ph, hph, hfits, hpassed⟩, -, -⟩⟩ := h.entries id e hf
  obtain ⟨ph', hadv, -, -⟩ := hnext ph hfits hpassed
  rw [hph, Option.bind_some, hadv] at hill
  cases hill

theorem refused_beginHeaders (h : Inv r) (hf : r.find id = some e)
    (hill : (r.phase e.stream).bind (fun ph => (r.terms e.stream).advance ph .begun) = none) :
    Refused r id e (r.onBeginHeaders api id).1 := by
  rw [Receive.onBeginHeaders]
  split
  · next hd =>
    rw [Receive.find, h.dead hd] at hf
    cases hf
  rw [hf]
  dsimp only
  rw [Receive.beginBlock]
  dsimp only
  split
  · exact refused_reject h hf _
  split
  · exact refused_reject h hf _
  next hn =>
  obtain ⟨hn, htrailers⟩ := Bool.or_eq_false_iff.1 (Bool.eq_false_iff.2 hn)
  obtain ⟨hpending, hcomplete⟩ := Bool.or_eq_false_iff.1 hn
  have hnone : e.pendingHeaders = none :=
    Option.not_isSome_iff_eq_none.1 (Bool.eq_false_iff.1 hpending)
  exact (absurd_next h hf hill (next_begun hnone hcomplete htrailers (api.make .hRequest 0 {}))).elim

theorem refused_endHeaders (h : Inv r) (block : HeaderBlock) (hf : r.find block.streamId = some e)
    (hill : (r.phase e.stream).bind (fun ph => (r.terms e.stream).advance ph
      (.block block.kind block.statusCode block.endStream
        (e.pendingHeaders.bind fun h => api.contentLength (api.sealBlock h).1))) = none)
    (callback : List Action) :
    Refused r block.streamId e (r.onEndHeaders api block callback).1 := by
  obtain ⟨-, -, hm⟩ := h.entries _ e hf
  rw [Receive.onEndHeaders]
  dsimp only
  rw [hf]
  dsimp only
  split
  · exact refused_reject h hf _
  next x hx =>
  have hp : e.pendingHeaders.isSome = true := by
    rw [hx]
    rfl
  rw [hx, Option.bind_some] at hill
  split
  · exact refused_reject h hf _
  next hk =>
  have hk' : e.pendingKind = block.kind := not_not.1 hk
  split
  · exact refused_reject h hf _
  split
  · next ht =>
    split
    · exact refused_reject h hf _
    next hend =>
    have hend' : block.endStream = true := by
      cases hb : block.endStream with
      | true => rfl
      | false =>
        rw [hb] at hend
        exact absurd rfl hend
    rw [hend', ht] at hill
    exact (absurd_next h hf hill (next_trailers hp (hk'.trans ht))).elim
  next ht =>
  split
  · exact refused_reject h hf _
  split
  · next hearly =>
    split
    · exact refused_reject h hf _
    next hend =>
    rw [hearly.1, Bool.eq_false_iff.2 hend] at hill
    exact (absurd_next h hf hill (next_early hp (hk'.trans hearly.1) hearly.2)).elim
  next hlate =>
  rw [Receive.finishInitial]
  dsimp only
  split
  · exact refused_reject h hf _
  next hlength =>
  have hterms : r.terms e.stream = ⟨decide (r.role = .hClient), e.headResponse⟩ := by
    rw [Receive.terms, hm.policy]
  rw [← hk'] at hill
  refine (absurd_next h hf hill (next_final (d := { e with
      bodyForbidden := (r.terms e.stream).bodyless ⟨block.statusCode, api.contentLength (api.sealBlock x).1⟩
      expectedLength := if (r.terms e.stream).bodyless
          ⟨block.statusCode, api.contentLength (api.sealBlock x).1⟩ then e.expectedLength
        else api.contentLength (api.sealBlock x).1
      pendingHeaders := none }) hp (hk' ▸ ht) (hk' ▸ hlate) ?_ rfl rfl rfl)).elim
  rw [hterms]
  exact hlength

theorem refused_data (h : Inv r) (hf : r.find id = some e) (data : Bytes)
    (hill : (r.phase e.stream).bind (fun ph => (r.terms e.stream).advance ph (.data data)) = none)
    (allocates : Bool) (result : Int) :
    Refused r id e (r.onData maxSize id data allocates result).1 := by
  rw [Receive.onData, hf]
  dsimp only
  split
  · exact refused_reject h hf _
  split
  · exact refused_reject h hf _
  next hstate =>
  split
  · exact refused_reject h hf _
  next hlength =>
  obtain ⟨hstate, hforbidden⟩ := Bool.or_eq_false_iff.1 (Bool.eq_false_iff.2 hstate)
  obtain ⟨hstate, hcomplete⟩ := Bool.or_eq_false_iff.1 hstate
  obtain ⟨hstate, htrailers⟩ := Bool.or_eq_false_iff.1 hstate
  obtain ⟨hinitial, hpending⟩ := Bool.or_eq_false_iff.1 hstate
  rw [Bool.not_eq_false'] at hinitial
  have hpub : (r.stream e.stream).bodyPublished = false := by
    refine Bool.eq_false_iff.2 fun hp => ?_
    rw [h.published _ hp] at hcomplete
    cases hcomplete
  exact (absurd_next h hf hill (next_data hpending hinitial htrailers hcomplete hpub hforbidden
    (Bool.eq_false_iff.2 hlength))).elim

theorem refused_endStream (h : Inv r) (hf : r.find id = some e)
    (hill : (r.phase e.stream).bind (fun ph => (r.terms e.stream).advance ph .ended) = none)
    (result : Int) : Refused r id e (r.onEndStream id result).1 := by
  obtain ⟨-, -, hm⟩ := h.entries _ e hf
  rw [Receive.onEndStream, hf]
  dsimp only
  split
  · next hclosed =>
    split
    · exact refused_refuse h hf _ result
    · next hn =>
      rcases hm.settled with ho | ⟨herror, -⟩
      · rw [Http2Stream.protocolOpen, ho] at hclosed
        cases hclosed
      · exact absurd herror hn
  split
  · exact refused_refuse h hf _ result
  next hstate =>
  obtain ⟨hstate, hlength⟩ := Bool.or_eq_false_iff.1 (Bool.eq_false_iff.2 hstate)
  obtain ⟨hinitial, hpending⟩ := Bool.or_eq_false_iff.1 hstate
  rw [Bool.not_eq_false'] at hinitial
  exact (absurd_next h hf hill (next_ended (u := { r.stream e.stream with bodyComplete := true })
    hpending hinitial hlength hinitial rfl rfl)).elim

theorem refused_step (h : Inv r) (hf : r.find id = some e) (event : Event)
    (hs : event.signal api id e = some signal)
    (hill : (r.phase e.stream).bind (fun ph => (r.terms e.stream).advance ph signal) = none) :
    Refused r id e (r.step api maxSize event) := by
  rw [Event.signal.eq_def] at hs
  cases event with
  | beginHeaders id' =>
    dsimp only at hs
    split at hs
    · next heq =>
      cases hs
      subst heq
      exact refused_beginHeaders api h hf hill
    · cases hs
  | endHeaders block callback =>
    dsimp only at hs
    split at hs
    · next heq =>
      cases hs
      subst heq
      exact refused_endHeaders api h block hf hill callback
    · cases hs
  | data id' data allocates result =>
    dsimp only at hs
    split at hs
    · next heq =>
      cases hs
      subst heq
      exact refused_data maxSize h hf data hill allocates result
    · cases hs
  | endStream id' result =>
    dsimp only at hs
    split at hs
    · next heq =>
      cases hs
      subst heq
      exact refused_endStream h hf hill result
    · cases hs
  | _ => cases hs

end Refusals

/-- Whatever a receiver hears, and whatever its callbacks and the owners of its streams do: the body of
a stream gets through its gate only as that of a whole message, with what was received; and what does
not belong to a message ends the stream, which leaves the table and is charged for nothing more. -/
theorem message_delimited {H : Type} (api : HeadersApi H) (maxSize : Nat) (role : Role)
    (options : Http2Options) (budget : Http2Budget) (shared : Budgets) (events : List Event) :
    let r := (Receive.start (H := H) role options budget shared).run api maxSize events
    (∀ i, (r.stream i).bodyComplete = true → (r.stream i).bodyFailed = false →
      Delimited (r.terms i) (r.objects i).log (r.stream i).stored) ∧
    ∀ id e event signal, r.find id = some e → event.signal api id e = some signal →
      (r.phase e.stream).bind (fun ph => (r.terms e.stream).advance ph signal) = none →
      Refused r id e (r.step api maxSize event) := by
  have h := inv_run api maxSize (inv_start (H := H) role options budget shared) events
  refine ⟨fun i hc hn => ?_, fun id e event signal hf hs hill => refused_step api maxSize h hf event hs hill⟩
  obtain ⟨f, hf⟩ := h.gate i (by rw [Http2Stream.passed, hc, hn]; rfl)
  exact shape_phase _ _ hf

/-- A connection with room for one stream, and header blocks that are always accepted. -/
def roomy : Budgets :=
  { states := fun _ => { limits := fun _ => 1, streamReceiveLimit := 1 }, stateCount := 1 }

def anyHeaders : HeadersApi Unit := ⟨fun _ _ _ => (), fun _ _ _ => ((), {}), fun _ => ((), {}), fun _ => none,
  fun _ => 0⟩

def twoByteRequest : List Event :=
  [.beginHeaders 1, .endHeaders ⟨1, .hRequest, 0, false⟩ [], .data 1 [104] true 0, .data 1 [105] true 0,
    .endStream 1 0]

def twoBytes : HeadersApi Unit := { anyHeaders with contentLength := fun _ => some 2 }

def roomForTwo : Budgets :=
  { states := fun _ => { limits := fun _ => 2, streamReceiveLimit := 2 }, stateCount := 1 }

/-- The receiver behind so many of these events. -/
def receiveTwo (n : Nat) : Receive Unit :=
  (Receive.start .hServer {} ⟨.hServer, 0⟩ roomForTwo).run twoBytes 2 (twoByteRequest.take n)

/-- The body is delimited, and a third byte would have been refused. -/
theorem message_delimited_two :
    ((receiveTwo 5).stream 0).stored = [104, 105] ∧
      Delimited ((receiveTwo 5).terms 0) ((receiveTwo 5).objects 0).log ((receiveTwo 5).stream 0).stored ∧
      ∃ e, (receiveTwo 4).find 1 = some e ∧
        Refused (receiveTwo 4) 1 e ((receiveTwo 4).step twoBytes 2 (.data 1 [33] true 0)) := by
  have hfind : ((receiveTwo 4).find 1).map Entry.stream = some 0 := by decide +kernel
  obtain ⟨e, he, hstream⟩ := Option.map_eq_some_iff.1 hfind
  have hill : ((receiveTwo 4).phase e.stream).bind
      (fun ph => ((receiveTwo 4).terms e.stream).advance ph (.data [33])) = none := by
    rw [hstream]
    decide +kernel
  have hwhole := message_delimited twoBytes 2 .hServer {} ⟨.hServer, 0⟩ roomForTwo
  exact ⟨by decide +kernel, (hwhole (twoByteRequest.take 5)).1 0 (by decide +kernel) (by decide +kernel), e, he,
    (hwhole (twoByteRequest.take 4)).2 1 e (.data 1 [33] true 0) (.data [33]) he rfl hill⟩

end Hical.Http2
