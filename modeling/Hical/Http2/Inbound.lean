import Hical.Http2.Output

/-! `Http2Codec::memRecv` and the outer frames that it follows. -/

namespace Hical.Http2

/-- What the codec does with its input: octets that go to nghttp2, and `onHeaderBlock`. -/
inductive InboundToken where
  | octet (b : UInt8)
  | headerBlock (streamId : Int) (complete : Bool)
  deriving DecidableEq, Repr

def InboundToken.octets : InboundToken → Bytes
  | .octet b => [b]
  | .headerBlock _ _ => []

def passed (tokens : List InboundToken) : Bytes := tokens.flatMap InboundToken.octets

/-- The outside of the codec while it receives. Whether a call fails may depend on all that went
before; the local MAX_FRAME_SIZE in force depends on the octets that nghttp2 has seen. -/
structure InboundOutside where
  /-- `nghttp2_session_mem_recv2` with the `terminalError_` that its callbacks set. -/
  memRecv2 : List InboundToken → Bytes → Int × NetworkError
  /-- Zero, or an error. -/
  terminateSession : List InboundToken → Http2Code → {result : Int // result ≤ 0}
  maxFrameSize : Bytes → Nat
  /-- Whether `onHeaderBlock` throws, when there is a listener. -/
  listener : Option (List InboundToken → Bool)

/-- The part of `Http2Codec::Impl` that follows the frames of the input. `frame` is the header of
the frame that `payloadLeft` belongs to. -/
structure Inbound where
  prefaceLeft : Nat
  header : Bytes := []
  payloadLeft : Nat := 0
  frame : Bytes := []
  stopped : Bool := false
  terminalError : NetworkError := {}
  /-- Not in the code: what was passed and raised so far. -/
  trace : List InboundToken := []
  header_lt : header.length < kFrameHeaderBytes := by decide

namespace Inbound
variable (outside : InboundOutside)

def hPriority : UInt8 := 2

def kClientMagicLen : Nat := 24

def start (role : Role) : Inbound where
  prefaceLeft := if role = .hServer then kClientMagicLen else 0

def passInbound (s : Inbound) (bytes : Bytes) : Inbound × Bool :=
  let (result, raised) := outside.memRecv2 s.trace bytes
  let s := { s with
    trace := s.trace ++ bytes.map .octet
    terminalError := if raised.isError then raised else s.terminalError }
  if result < 0 ∨ result ≠ bytes.length then
    -- NGHTTP2_ERR_CALLBACK_FAILURE stands for a part of the input that was not consumed
    ({ s with terminalError := operationError (if result < 0 then result else -902) 0 }, false)
  else (s, !s.terminalError.isError)

def headerBlockEvent (s : Inbound) (complete : Bool) : Inbound × Bool :=
  match outside.listener with
  | none => (s, !s.terminalError.isError)
  | some throws =>
    let s := { s with trace := s.trace ++ [.headerBlock (headerStreamId s.frame) complete] }
    if throws s.trace then ({ s with terminalError := operationError (-902) 0 }, false)
    else (s, !s.terminalError.isError)

def endsHeaders (header : Bytes) : Prop :=
  (header.getD 3 0 = FrameType.hHeaders ∨ header.getD 3 0 = FrameType.hContinuation) ∧
    header.getD 4 0 &&& kEndHeaders ≠ 0

instance (header : Bytes) : Decidable (endsHeaders header) := inferInstanceAs (Decidable (_ ∧ _))

def finishInboundFrame (s : Inbound) : Inbound × Bool :=
  if endsHeaders s.frame then s.headerBlockEvent outside true else (s, true)

def stopInbound (s : Inbound) (code : Http2Code) : Inbound × Bool :=
  let result := (outside.terminateSession s.trace code).1
  if result ≠ 0 then ({ s with terminalError := operationError result 0 }, false)
  else ({ s with stopped := true }, true)

def beginInboundFrame (s : Inbound) (header : Bytes) : Inbound × Bool :=
  let s := { s with header := [], frame := header, header_lt := by decide }
  if outside.maxFrameSize (passed s.trace) < framePayloadLength header then
    s.stopInbound outside .hFrameSizeError
  else if header.getD 3 0 = hPriority ∧ headerStreamId header = 0 then
    s.stopInbound outside .hProtocolError
  else
    let (s, ok) :=
      if header.getD 3 0 = FrameType.hHeaders then s.headerBlockEvent outside false else (s, true)
    if ok then
      let (s, ok) := { s with payloadLeft := framePayloadLength header }.passInbound outside header
      if ok ∧ s.payloadLeft = 0 then s.finishInboundFrame outside else (s, ok)
    else (s, false)

/-- One turn of the loop of `receive`, with the input that it leaves. -/
def turn (s : Inbound) (bytes : Bytes) : (Inbound × Bool) × Bytes :=
  if s.prefaceLeft ≠ 0 then
    let count := min s.prefaceLeft bytes.length
    let (s, ok) := s.passInbound outside (bytes.take count)
    if ok then (({ s with prefaceLeft := s.prefaceLeft - count }, true), bytes.drop count)
    else ((s, false), bytes)
  else if s.payloadLeft ≠ 0 then
    let count := min s.payloadLeft bytes.length
    let (s, ok) := s.passInbound outside (bytes.take count)
    if ok then
      let s := { s with payloadLeft := s.payloadLeft - count }
      (if s.payloadLeft = 0 then s.finishInboundFrame outside else (s, true), bytes.drop count)
    else ((s, false), bytes)
  else
    let count := min (kFrameHeaderBytes - s.header.length) bytes.length
    let header := s.header ++ bytes.take count
    if h : header.length < kFrameHeaderBytes then
      (({ s with header, header_lt := h }, true), bytes.drop count)
    else (s.beginInboundFrame outside header, bytes.drop count)

theorem turn_shorter (s : Inbound) (b : UInt8) (bytes : Bytes)
    (h : s.turn outside (b :: bytes) = ((s', true), rest)) :
    rest.length < (b :: bytes).length := by
  have hdrop (n : Nat) (hn : n ≠ 0) :
      ((b :: bytes).drop (min n (b :: bytes).length)).length < (b :: bytes).length := by
    rw [List.length_drop, List.length_cons]
    omega
  rw [turn] at h
  split at h
  · next hp =>
    dsimp only at h
    split at h
    · cases h
      exact hdrop _ hp
    · cases h
  · split at h
    · next hp =>
      dsimp only at h
      split at h
      · rw [Prod.mk.injEq] at h
        rw [← h.2]
        exact hdrop _ hp
      · cases h
    · dsimp only at h
      have hlt := s.header_lt
      split at h
      · cases h
        exact hdrop _ (by omega)
      · rw [Prod.mk.injEq] at h
        rw [← h.2]
        exact hdrop _ (by omega)

/-- `receive` without the number of octets that it reports. -/
def receive (s : Inbound) : Bytes → Inbound × NetworkError
  | [] => (s, {})
  | b :: bytes =>
    if s.stopped then (s, {})
    else
      match h : s.turn outside (b :: bytes) with
      | ((s', true), rest) => receive s' rest
      | ((s', false), _) => (s', s'.terminalError)
termination_by bytes => bytes.length
decreasing_by exact turn_shorter outside s b bytes h

/-- A call of `memRecv`: its input, and what happened to the codec since the call before. -/
structure RecvCall where
  bytes : Bytes
  pumpActive : Bool := false
  error : NetworkError := {}

def memRecv (s : Inbound) (call : RecvCall) : Inbound × NetworkError :=
  let s := if call.error.isError then { s with terminalError := call.error } else s
  if call.pumpActive then (s, ⟨.hOperationInProgress, "HTTP/2 收发泵不能从回调重入", none⟩)
  else if s.terminalError.isError then (s, s.terminalError)
  else s.receive outside call.bytes

def run (s : Inbound) : List RecvCall → Inbound × List NetworkError
  | [] => (s, [])
  | c :: cs =>
    ((run (s.memRecv outside c).1 cs).1,
      (s.memRecv outside c).2 :: (run (s.memRecv outside c).1 cs).2)

def refuses (consumed header : Bytes) : Prop :=
  outside.maxFrameSize consumed < framePayloadLength header ∨
    (header.getD 3 0 = hPriority ∧ headerStreamId header = 0)

instance (consumed header : Bytes) : Decidable (refuses outside consumed header) :=
  inferInstanceAs (Decidable (_ ∨ _))

def blockEvent (header : Bytes) (complete : Bool) : List InboundToken :=
  if outside.listener.isSome then [.headerBlock (headerStreamId header) complete] else []

def opening (header : Bytes) : List InboundToken :=
  if header.getD 3 0 = FrameType.hHeaders then blockEvent outside header false else []

def closing (header : Bytes) : List InboundToken :=
  if endsHeaders header then blockEvent outside header true else []

def frames (consumed stream : Bytes) : List InboundToken :=
  if stream.length < kFrameHeaderBytes then []
  else
    let header := stream.take kFrameHeaderBytes
    if refuses outside consumed header then []
    else
      let size := kFrameHeaderBytes + framePayloadLength header
      opening outside header ++ (stream.take size).map .octet ++
        if stream.length < size then []
        else closing outside header ++ frames (consumed ++ stream.take size) (stream.drop size)
termination_by stream.length
decreasing_by
  rw [List.length_drop]
  have : 0 < kFrameHeaderBytes := by decide
  omega

def whole (role : Role) (stream : Bytes) : List InboundToken :=
  (stream.take (start role).prefaceLeft).map .octet ++
    frames outside (stream.take (start role).prefaceLeft) (stream.drop (start role).prefaceLeft)

def told (s : Inbound) (tokens : List InboundToken) (error : NetworkError) : Inbound :=
  { s with trace := s.trace ++ tokens, terminalError := error }

@[simp] theorem passed_nil : passed [] = [] := rfl

@[simp] theorem passed_append (ts ts' : List InboundToken) :
    passed (ts ++ ts') = passed ts ++ passed ts' := List.flatMap_append

@[simp] theorem passed_octets (bs : Bytes) : passed (bs.map .octet) = bs := by
  rw [passed, List.flatMap_map]
  exact List.flatMap_singleton' bs

@[simp] theorem passed_blockEvent (header : Bytes) (complete : Bool) :
    passed (blockEvent outside header complete) = [] := by
  rw [blockEvent]
  split <;> rfl

@[simp] theorem passed_opening (header : Bytes) : passed (opening outside header) = [] := by
  rw [opening]
  split
  · exact passed_blockEvent outside header false
  · rfl

@[simp] theorem passed_closing (header : Bytes) : passed (closing outside header) = [] := by
  rw [closing]
  split
  · exact passed_blockEvent outside header true
  · rfl

variable {outside}

/-- A part of the codec's work: some tokens, and a terminal error where it does not go on. -/
def Tells (s : Inbound) (tokens : List InboundToken) (r : Inbound × Bool) : Prop :=
  ∃ error, r.1 = s.told tokens error ∧ (r.2 = false → error.isError = true)

theorem passInbound_tells (s : Inbound) (bytes : Bytes) :
    Tells s (bytes.map .octet) (s.passInbound outside bytes) := by
  rw [passInbound]
  cases outside.memRecv2 s.trace bytes with
  | mk result raised =>
    dsimp only
    split
    · refine ⟨_, rfl, fun _ => operationError_isError ?_ 0⟩
      split
      · assumption
      · decide
    · exact ⟨_, rfl, fun h => by simpa using h⟩

theorem headerBlockEvent_tells (s : Inbound) (complete : Bool) :
    Tells s (blockEvent outside s.frame complete) (s.headerBlockEvent outside complete) := by
  rw [headerBlockEvent, blockEvent]
  cases outside.listener with
  | none =>
    refine ⟨s.terminalError, ?_, fun h => by simpa using h⟩
    simp [told]
  | some throws =>
    rw [Option.isSome_some, if_pos rfl]
    dsimp only
    split
    · exact ⟨_, rfl, fun _ => rfl⟩
    · exact ⟨_, rfl, fun h => by simpa using h⟩

theorem tells_nothing (s : Inbound) : Tells s [] (s, true) :=
  ⟨s.terminalError, by simp [told], fun h => nomatch h⟩

theorem finishInboundFrame_tells (s : Inbound) :
    Tells s (closing outside s.frame) (s.finishInboundFrame outside) := by
  rw [finishInboundFrame, closing]
  split
  · exact headerBlockEvent_tells s true
  · exact tells_nothing s

/-- The octets of a part of the stream with `n` octets, and then the rest. -/
def passing (n : Nat) (next : Bytes → Bytes → List InboundToken) (consumed stream : Bytes) :
    List InboundToken :=
  (stream.take n).map .octet ++
    if stream.length < n then [] else next (consumed ++ stream.take n) (stream.drop n)

theorem passing_zero (next : Bytes → Bytes → List InboundToken) (consumed stream : Bytes) :
    passing 0 next consumed stream = next consumed stream := by
  simp [passing]

theorem passing_append (next : Bytes → Bytes → List InboundToken) (consumed piece stream : Bytes)
    (h : piece.length ≤ n) :
    passing n next consumed (piece ++ stream) =
      piece.map .octet ++ passing (n - piece.length) next (consumed ++ piece) stream := by
  rw [passing, passing, List.take_append, List.take_of_length_le h, List.drop_append,
    List.drop_of_length_le h, List.length_append, List.map_append, List.append_assoc,
    List.nil_append]
  congr 2
  simp only [List.append_assoc]
  congr 1
  apply propext
  omega

theorem frames_short (consumed stream : Bytes) (h : stream.length < kFrameHeaderBytes) :
    frames outside consumed stream = [] := by
  rw [frames, if_pos h]

theorem frames_refused (consumed header rest : Bytes) (hh : header.length = kFrameHeaderBytes)
    (hr : refuses outside consumed header) : frames outside consumed (header ++ rest) = [] := by
  rw [frames, List.take_left' hh, if_neg (by rw [List.length_append]; omega), if_pos hr]

theorem frames_frame (consumed header rest : Bytes) (hh : header.length = kFrameHeaderBytes)
    (hr : ¬refuses outside consumed header) :
    frames outside consumed (header ++ rest) =
      opening outside header ++ (header.map .octet ++
        passing (framePayloadLength header)
          (fun c w => closing outside header ++ frames outside c w) (consumed ++ header) rest) := by
  have hn : header.length ≤ kFrameHeaderBytes + framePayloadLength header := by omega
  have h := passing_append (fun c w => closing outside header ++ frames outside c w) consumed
    header rest hn
  rw [hh, Nat.add_sub_cancel_left] at h
  rw [← h, frames, List.take_left' hh, if_neg (by rw [List.length_append]; omega), if_neg hr,
    passing, List.append_assoc]

variable (outside)

/-- What is to become of the input behind the preface. -/
def behind (s : Inbound) (consumed stream : Bytes) : List InboundToken :=
  if s.payloadLeft = 0 then frames outside consumed (s.header ++ stream)
  else
    passing s.payloadLeft
      (fun c w => closing outside s.frame ++ frames outside c (s.header ++ w)) consumed stream

/-- What is to become of the input that is still to come. -/
def ahead (s : Inbound) (stream : Bytes) : List InboundToken :=
  if s.stopped then [] else passing s.prefaceLeft (s.behind outside) (passed s.trace) stream

/-- Work behind this trace, with this to come, leads here: what it adds to the trace and what is to
come then are the same together, and where it fails it added a part of that. -/
def Leads (trace : List InboundToken) (todo : Bytes → List InboundToken) (r : Inbound × Bool) :
    Prop :=
  (r.2 = true → ∀ w, trace ++ todo w = r.1.trace ++ r.1.ahead outside w) ∧
    (r.2 = false → r.1.terminalError.isError = true ∧ ∀ w, r.1.trace <+: trace ++ todo w)

variable {outside}

theorem ahead_preface (s : Inbound) (hs : s.stopped = false) (w : Bytes) :
    s.ahead outside w = passing s.prefaceLeft (s.behind outside) (passed s.trace) w := by
  rw [ahead, hs, if_neg Bool.false_ne_true]

theorem ahead_frames (s : Inbound) (hs : s.stopped = false) (hp : s.prefaceLeft = 0)
    (hl : s.payloadLeft = 0) (w : Bytes) :
    s.ahead outside w = frames outside (passed s.trace) (s.header ++ w) := by
  rw [ahead_preface s hs, hp, passing_zero, behind, if_pos hl]

theorem ahead_payload (s : Inbound) (hs : s.stopped = false) (hp : s.prefaceLeft = 0)
    (hl : s.payloadLeft ≠ 0) (w : Bytes) :
    s.ahead outside w =
      passing s.payloadLeft
        (fun c w => closing outside s.frame ++ frames outside c (s.header ++ w)) (passed s.trace) w := by
  rw [ahead_preface s hs, hp, passing_zero, behind, if_neg hl]

theorem leads_done {trace : List InboundToken} (r : Inbound) (htrace : r.trace = trace)
    (h : ∀ w, todo w = r.ahead outside w) :
    Leads outside trace todo (r, true) :=
  ⟨fun _ w => by rw [h, htrace], fun h => nomatch h⟩

theorem leads_tells (h : Tells s tokens (r, ok)) (htodo : ∀ w, todo w = tokens ++ todo' w)
    (hok : ok = true → Leads outside (s.trace ++ tokens) todo' r')
    (hfail : ok = false → r' = (r, false)) : Leads outside s.trace todo r' := by
  obtain ⟨error, hr, herror⟩ := h
  cases ok with
  | true =>
    obtain ⟨hgo, hstop⟩ := hok rfl
    refine ⟨fun h w => ?_, fun h => ⟨(hstop h).1, fun w => ?_⟩⟩
    · rw [htodo, ← List.append_assoc]
      exact hgo h w
    · rw [htodo, ← List.append_assoc]
      exact (hstop h).2 w
  | false =>
    rw [hfail rfl]
    refine ⟨(nomatch ·), fun _ => ⟨?_, fun w => ?_⟩⟩
    · rw [show r = s.told tokens error from hr]
      exact herror rfl
    · rw [show r = s.told tokens error from hr, htodo, ← List.append_assoc]
      exact List.prefix_append _ _

theorem leads_finish (s : Inbound) (hs : s.stopped = false) (hp : s.prefaceLeft = 0)
    (hl : s.payloadLeft = 0) :
    Leads outside s.trace
      (fun w => closing outside s.frame ++ frames outside (passed s.trace) (s.header ++ w))
      (s.finishInboundFrame outside) := by
  have htells : Tells s _ (s.finishInboundFrame outside) := finishInboundFrame_tells s
  cases hfinish : s.finishInboundFrame outside with
  | mk r ok =>
    rw [hfinish] at htells
    apply leads_tells htells (fun w => rfl)
    · intro hok
      subst hok
      obtain ⟨error, hr, -⟩ := htells
      rw [show r = s.told (closing outside s.frame) error from hr]
      apply leads_done _ rfl
      intro w
      rw [ahead_frames (s.told _ error) hs hp hl]
      simp only [told, passed_append, passed_closing, List.append_nil]
    · intro hok
      rw [hok]

theorem leads_payload (s : Inbound) (hs : s.stopped = false) (hp : s.prefaceLeft = 0) :
    Leads outside s.trace
      (passing s.payloadLeft
        (fun c w => closing outside s.frame ++ frames outside c (s.header ++ w)) (passed s.trace))
      (if s.payloadLeft = 0 then s.finishInboundFrame outside else (s, true)) := by
  split
  · next hl =>
    have h : Leads outside _ _ _ := leads_finish s hs hp hl
    rw [hl]
    simpa only [funext (passing_zero _ _)] using h
  · next hl => exact leads_done s rfl fun w => (ahead_payload s hs hp hl w).symm

theorem leads_stop (s : Inbound) (code : Http2Code) :
    Leads outside s.trace (fun _ => []) (s.stopInbound outside code) := by
  rw [stopInbound]
  split
  · next h =>
    refine ⟨(nomatch ·), fun _ => ⟨operationError_isError ?_ 0, fun w => ?_⟩⟩
    · have := (outside.terminateSession s.trace code).2
      omega
    · exact List.prefix_append _ _
  · exact leads_done _ rfl fun w => rfl

theorem opening_tells (s : Inbound) :
    Tells s (opening outside s.frame)
      (if s.frame.getD 3 0 = FrameType.hHeaders then s.headerBlockEvent outside false
        else (s, true)) := by
  rw [opening]
  split
  · exact headerBlockEvent_tells s false
  · exact tells_nothing s

theorem leads_begin (s : Inbound) (header : Bytes) (hs : s.stopped = false) (hp : s.prefaceLeft = 0)
    (hh : header.length = kFrameHeaderBytes) :
    Leads outside s.trace (fun w => frames outside (passed s.trace) (header ++ w))
      (s.beginInboundFrame outside header) := by
  generalize hs0 : ({ s with header := [], frame := header, header_lt := by decide } : Inbound) = s0
  have htrace : s.trace = s0.trace := by rw [← hs0]
  by_cases hr : refuses outside (passed s.trace) header
  · have htodo : (fun w => frames outside (passed s.trace) (header ++ w)) = fun _ => [] :=
      funext fun w => frames_refused _ _ w hh hr
    rw [htodo, beginInboundFrame, hs0, htrace]
    dsimp only
    split
    · exact leads_stop s0 _
    · next hsize =>
      rw [if_pos (hr.resolve_left (by rw [htrace]; exact hsize))]
      exact leads_stop s0 _
  · have hframe : s0.frame = header := by rw [← hs0]
    have hstopped : s0.stopped = false := by rw [← hs0]; exact hs
    have hpreface : s0.prefaceLeft = 0 := by rw [← hs0]; exact hp
    have hheader : s0.header = [] := by rw [← hs0]
    have hopening : Tells s0 (opening outside s0.frame) _ := opening_tells s0
    rw [beginInboundFrame, hs0]
    dsimp only
    rw [htrace, refuses, not_or] at hr
    rw [htrace, if_neg hr.1, if_neg hr.2]
    rw [hframe] at hopening
    cases hopen : (if header.getD 3 0 = FrameType.hHeaders then s0.headerBlockEvent outside false
        else (s0, true)) with
    | mk s1 ok =>
      rw [hopen] at hopening
      apply leads_tells hopening fun w => frames_frame _ _ w hh (by rw [refuses, not_or]; exact hr)
      · intro hok
        subst hok
        obtain ⟨error, hs1, -⟩ := hopening
        rw [if_pos rfl]
        have htrace1 : s0.trace ++ opening outside header =
            ({ s1 with payloadLeft := framePayloadLength header } : Inbound).trace := by
          rw [show s1 = s0.told _ error from hs1]
          rfl
        generalize hs2 : ({ s1 with payloadLeft := framePayloadLength header } : Inbound) = s2 at htrace1
        have hpassed : passed s0.trace = passed s2.trace := by
          rw [← htrace1, passed_append, passed_opening, List.append_nil]
        have hpass : Tells s2 _ (s2.passInbound outside header) := passInbound_tells s2 header
        cases hpassing : s2.passInbound outside header with
        | mk s3 ok =>
          rw [hpassing] at hpass
          rw [htrace1]
          apply leads_tells hpass fun w => rfl
          · intro hok
            subst hok
            obtain ⟨error', hs3, -⟩ := hpass
            have hs3 : s3 = s2.told _ error' := hs3
            subst hs3 hs2 hs1
            have h : Leads outside _ _ _ := leads_payload
              (told { s0.told (opening outside header) error with
                payloadLeft := framePayloadLength header } (header.map .octet) error') hstopped hpreface
            simp only [told, passed_append, passed_opening, passed_octets, List.append_nil, hframe,
              hheader, List.nil_append] at h
            simpa only [told, true_and, hframe, hheader] using h
          · intro hok
            subst hok
            rfl
      · intro hok
        subst hok
        rfl

theorem length_piece (n : Nat) (bytes : Bytes) :
    (bytes.take (min n bytes.length)).length = min n bytes.length := by
  rw [List.length_take]
  omega

theorem leads_pass (s : Inbound) (bytes : Bytes) (go : Inbound → Inbound × Bool)
    {r : (Inbound × Bool) × Bytes}
    (hpiece : bytes.take (min n bytes.length) = piece)
    (hahead : ∀ w, s.ahead outside w = passing n next (passed s.trace) w)
    (hgo : ∀ error, Leads outside (s.trace ++ piece.map .octet)
      (passing (n - min n bytes.length) next (passed s.trace ++ piece))
      (go (s.told (piece.map .octet) error)))
    (hr : r = if (s.passInbound outside piece).2 then
        (go (s.passInbound outside piece).1, bytes.drop (min n bytes.length))
      else (((s.passInbound outside piece).1, false), bytes)) :
    ∃ k, Leads outside s.trace (fun w => s.ahead outside (bytes.take k ++ w)) r.1 ∧
      (r.1.2 = true → r.2 = bytes.drop k) := by
  have hpass : Tells s _ (s.passInbound outside piece) := passInbound_tells s piece
  have hlength : piece.length = min n bytes.length := by rw [← hpiece, length_piece]
  have htodo (w : Bytes) : s.ahead outside (piece ++ w) = _ :=
    (hahead _).trans (passing_append next (passed s.trace) piece w (hlength.trans_le (Nat.min_le_left ..)))
  refine ⟨min n bytes.length, ?_⟩
  rw [hpiece, hr]
  cases hpassing : s.passInbound outside piece with
  | mk s1 ok =>
    rw [hpassing] at hpass
    cases ok with
    | true =>
      rw [if_pos rfl]
      refine ⟨leads_tells hpass htodo (fun _ => ?_) (fun h => Bool.noConfusion h), fun _ => rfl⟩
      obtain ⟨error, hs1, -⟩ := hpass
      rw [show s1 = s.told _ error from hs1, hlength]
      exact hgo error
    | false =>
      rw [if_neg Bool.false_ne_true]
      exact ⟨leads_tells hpass htodo (fun h => Bool.noConfusion h) fun _ => rfl,
        fun h => Bool.noConfusion h⟩

theorem leads_turn (s : Inbound) (bytes : Bytes) (hs : s.stopped = false) :
    ∃ n, Leads outside s.trace (fun w => s.ahead outside (bytes.take n ++ w))
        (s.turn outside bytes).1 ∧
      ((s.turn outside bytes).1.2 = true → (s.turn outside bytes).2 = bytes.drop n) := by
  rw [turn]
  split
  · next hp =>
    refine leads_pass s bytes
      (fun r => ({ r with prefaceLeft := r.prefaceLeft - min s.prefaceLeft bytes.length }, true))
      rfl (ahead_preface s hs) (fun error => ?_) rfl
    apply leads_done _ rfl
    intro w
    rw [ahead_preface]
    · simp only [told, passed_append, passed_octets]
      rfl
    · exact hs
  · next hp =>
    have hp := not_not.1 hp
    split
    · next hl =>
      refine leads_pass s bytes (fun r =>
        let r := { r with payloadLeft := r.payloadLeft - min s.payloadLeft bytes.length }
        if r.payloadLeft = 0 then r.finishInboundFrame outside else (r, true))
        rfl (ahead_payload s hs hp hl) (fun error => ?_) rfl
      have h : Leads outside _ _ _ := leads_payload
        ({ s.told ((bytes.take (min s.payloadLeft bytes.length)).map .octet) error with
          payloadLeft := s.payloadLeft - min s.payloadLeft bytes.length }) hs hp
      rw [told, passed_append, passed_octets] at h
      exact h
    · next hl =>
      have hl := not_not.1 hl
      refine ⟨min (kFrameHeaderBytes - s.header.length) bytes.length, ?_⟩
      generalize hpiece : bytes.take (min (kFrameHeaderBytes - s.header.length) bytes.length) = piece
      have htodo (w : Bytes) : s.ahead outside (piece ++ w) =
          frames outside (passed s.trace) ((s.header ++ piece) ++ w) := by
        rw [ahead_frames s hs hp hl, List.append_assoc]
      dsimp only
      rw [hpiece, funext htodo]
      split
      · next hlt =>
        refine ⟨leads_done _ rfl fun w => ?_, fun _ => rfl⟩
        rw [ahead_frames]
        · exact hs
        · exact hp
        · exact hl
      · next hlt =>
        refine ⟨leads_begin s _ hs hp ?_, fun _ => rfl⟩
        have := s.header_lt
        rw [← hpiece, List.length_append, length_piece] at hlt ⊢
        omega

theorem leads_receive (s : Inbound) (bytes : Bytes) :
    ((s.receive outside bytes).2.isError = false → ∀ w, s.trace ++ s.ahead outside (bytes ++ w) =
        (s.receive outside bytes).1.trace ++ (s.receive outside bytes).1.ahead outside w) ∧
      ((s.receive outside bytes).2.isError = true →
        (s.receive outside bytes).1.terminalError.isError = true ∧
        ∀ w, (s.receive outside bytes).1.trace <+: s.trace ++ s.ahead outside (bytes ++ w)) := by
  fun_induction receive outside s bytes with
  | case1 s => exact ⟨fun _ w => rfl, (nomatch ·)⟩
  | case2 s b bytes hs =>
    refine ⟨fun _ w => ?_, (nomatch ·)⟩
    rw [ahead, if_pos hs, ahead, if_pos hs]
  | case3 s b bytes hs s' rest h ih =>
    obtain ⟨n, hleads, hrest⟩ := leads_turn s (b :: bytes) (Bool.eq_false_iff.2 hs)
    rw [h] at hleads hrest
    have hrest : rest = (b :: bytes).drop n := hrest rfl
    have hstep (w : Bytes) : s.trace ++ s.ahead outside (b :: bytes ++ w) =
        s'.trace ++ s'.ahead outside (rest ++ w) := by
      have h := hleads.1 rfl (rest ++ w)
      dsimp only at h
      rw [← List.append_assoc, hrest, List.take_append_drop, ← hrest] at h
      exact h
    refine ⟨fun hok w => ?_, fun hfail => ⟨(ih.2 hfail).1, fun w => ?_⟩⟩
    · rw [hstep]
      exact ih.1 hok w
    · rw [hstep]
      exact (ih.2 hfail).2 w
  | case4 s b bytes hs s' rest h =>
    obtain ⟨n, hleads, -⟩ := leads_turn s (b :: bytes) (Bool.eq_false_iff.2 hs)
    rw [h] at hleads
    obtain ⟨herror, hprefix⟩ := hleads.2 rfl
    refine ⟨fun hok => ?_, fun _ => ⟨herror, fun w => ?_⟩⟩
    · rw [show s'.terminalError.isError = true from herror] at hok
      cases hok
    · have h := hprefix ((b :: bytes).drop n ++ w)
      dsimp only at h
      rw [← List.append_assoc, List.take_append_drop] at h
      exact h

theorem leads_memRecv (s : Inbound) (call : RecvCall) :
    ((s.memRecv outside call).2.isError = false → ∀ w, s.trace ++ s.ahead outside (call.bytes ++ w) =
        (s.memRecv outside call).1.trace ++ (s.memRecv outside call).1.ahead outside w) ∧
      (call.pumpActive = false → (s.memRecv outside call).2.isError = true →
        (s.memRecv outside call).1.terminalError.isError = true ∧
        ∀ w, (s.memRecv outside call).1.trace <+: s.trace ++ s.ahead outside (call.bytes ++ w)) := by
  rw [memRecv]
  generalize hs0 : (if call.error.isError then { s with terminalError := call.error } else s) = s0
  have htrace : s0.trace = s.trace := by
    rw [← hs0]
    split <;> rfl
  have hahead : s0.ahead outside = s.ahead outside := by
    rw [← hs0]
    split <;> rfl
  rw [← htrace, ← hahead]
  split
  · next hactive =>
    refine ⟨(nomatch ·), fun h => ?_⟩
    rw [h] at hactive
    cases hactive
  · split
    · next hdead =>
      refine ⟨fun hok => ?_, fun _ _ => ⟨hdead, fun w => List.prefix_append _ _⟩⟩
      rw [show s0.terminalError.isError = true from hdead] at hok
      cases hok
    · exact ⟨(leads_receive s0 call.bytes).1, fun _ => (leads_receive s0 call.bytes).2⟩

def stream (calls : List RecvCall) : Bytes := calls.flatMap (·.bytes)

theorem leads_run (s : Inbound) (calls : List RecvCall)
    (hok : ∀ e ∈ (s.run outside calls).2, e.isError = false) (w : Bytes) :
    s.trace ++ s.ahead outside (stream calls ++ w) =
      (s.run outside calls).1.trace ++ (s.run outside calls).1.ahead outside w := by
  induction calls generalizing s with
  | nil => rfl
  | cons c calls ih =>
    rw [run] at hok ⊢
    rw [← ih _ fun e he => hok e (List.mem_cons_of_mem _ he)]
    rw [stream, List.flatMap_cons, List.append_assoc]
    exact (leads_memRecv s c).1 (hok _ List.mem_cons_self) _

theorem ahead_nil (s : Inbound) : s.ahead outside [] = [] := by
  rw [ahead]
  split
  · rfl
  · rw [passing, List.take_nil, List.drop_nil, List.map_nil, List.nil_append]
    split
    · rfl
    · rw [behind]
      split
      · apply frames_short
        rw [List.append_nil]
        exact s.header_lt
      · next hl =>
        rw [passing, List.take_nil, List.map_nil, List.nil_append]
        exact if_pos (Nat.pos_of_ne_zero hl)

theorem ahead_start (role : Role) (w : Bytes) : (start role).ahead outside w = whole outside role w := by
  rw [ahead_preface _ rfl, passing, whole]
  congr 1
  split
  · next hlt =>
    rw [List.drop_of_length_le (Nat.le_of_lt hlt)]
    exact (frames_short _ _ (by decide)).symm
  · rfl

theorem run_trace (role : Role) (calls : List RecvCall)
    (hok : ∀ e ∈ ((start role).run outside calls).2, e.isError = false) :
    ((start role).run outside calls).1.trace = whole outside role (stream calls) := by
  have h := leads_run (start role) calls hok []
  rw [ahead_nil, List.append_nil, List.append_nil, ahead_start] at h
  exact h.symm

/-- The octets that do not pass are an incomplete header, or start with a frame that is refused. -/
theorem kept_frames (consumed w : Bytes) :
    ∃ kept, passed (frames outside consumed w) ++ kept = w ∧
      (kept.length < kFrameHeaderBytes ∨ kFrameHeaderBytes ≤ kept.length ∧
        refuses outside (consumed ++ passed (frames outside consumed w))
          (kept.take kFrameHeaderBytes)) := by
  fun_induction frames outside consumed w with
  | case1 consumed w h => exact ⟨w, rfl, .inl h⟩
  | case2 consumed w h header hr =>
    refine ⟨w, rfl, .inr ⟨Nat.le_of_not_lt h, ?_⟩⟩
    rw [passed_nil, List.append_nil]
    exact hr
  | case3 consumed w h header hr size ih =>
    simp only [passed_append, passed_opening, passed_octets, List.nil_append]
    split
    · next hlt =>
      refine ⟨[], ?_, .inl (by decide)⟩
      rw [passed_nil, List.append_nil, List.append_nil]
      exact List.take_of_length_le (Nat.le_of_lt hlt)
    · next hlt =>
      obtain ⟨kept, hkept, hend⟩ := ih hlt
      refine ⟨kept, ?_, ?_⟩
      · rw [passed_append, passed_closing, List.nil_append, List.append_assoc, hkept,
          List.take_append_drop]
      · rw [passed_append, passed_closing, List.nil_append, ← List.append_assoc]
        exact hend

def BlockPassed (octets : Bytes) (streamId : Int) : Prop :=
  ∃ front header payload, octets = front ++ header ++ payload ∧ header.length = kFrameHeaderBytes ∧
    payload.length = framePayloadLength header ∧ endsHeaders header ∧
    streamId = headerStreamId header

def Completes (consumed : Bytes) (tokens : List InboundToken) : Prop :=
  ∀ before after id, tokens = before ++ .headerBlock id true :: after →
    BlockPassed (consumed ++ passed before) id

theorem Completes.append (h : Completes consumed ts) (h' : Completes (consumed ++ passed ts) ts') :
    Completes consumed (ts ++ ts') := by
  intro before after id heq
  obtain ⟨mid, hbefore, hts'⟩ | ⟨mid, hts, hafter⟩ := List.append_eq_append_iff.1 heq
  · rw [hbefore, passed_append, ← List.append_assoc]
    exact h' mid after id hts'
  · cases mid with
    | nil =>
      rw [List.append_nil] at hts
      have := h' [] after id hafter.symm
      rw [passed_nil, List.append_nil, hts] at this
      exact this
    | cons t mid =>
      cases hafter
      exact h before mid id hts

theorem completes_silent (consumed : Bytes) (h : ∀ id, .headerBlock id true ∉ ts) :
    Completes consumed ts := by
  intro before after id heq
  exact absurd (heq ▸ List.mem_append_right _ List.mem_cons_self) (h id)

theorem completes_octets (consumed bs : Bytes) : Completes consumed (bs.map .octet) := by
  apply completes_silent
  intro id hmem
  obtain ⟨b, -, hb⟩ := List.mem_map.1 hmem
  cases hb

theorem completes_opening (consumed header : Bytes) :
    Completes consumed (opening outside header) := by
  apply completes_silent
  intro id
  rw [opening, blockEvent]
  split
  · split <;> simp
  · exact List.not_mem_nil

theorem completes_closing (front header payload : Bytes) (hh : header.length = kFrameHeaderBytes)
    (hp : payload.length = framePayloadLength header) :
    Completes (front ++ header ++ payload) (closing outside header) := by
  intro before after id heq
  rw [closing, blockEvent] at heq
  split at heq
  · next hends =>
    split at heq
    · cases before with
      | nil =>
        cases heq
        rw [passed_nil, List.append_nil]
        exact ⟨front, header, payload, rfl, hh, hp, hends, rfl⟩
      | cons t before =>
        have := congrArg List.length heq
        simp at this
    · simp at heq
  · simp at heq

theorem completes_frames (consumed w : Bytes) : Completes consumed (frames outside consumed w) := by
  fun_induction frames outside consumed w with
  | case1 | case2 => exact completes_silent _ fun id => List.not_mem_nil
  | case3 consumed w h header hr size ih =>
    apply Completes.append ((completes_opening _ _).append (completes_octets _ _))
    rw [passed_append, passed_opening, passed_octets, List.nil_append]
    split
    · exact completes_silent _ fun id => List.not_mem_nil
    · next hlt =>
      have hsplit : w.take size =
          header ++ (w.drop kFrameHeaderBytes).take (framePayloadLength header) :=
        List.take_add
      apply Completes.append
      · rw [hsplit, ← List.append_assoc]
        apply completes_closing
        · rw [List.length_take]
          omega
        · rw [List.length_take, List.length_drop]
          omega
      · rw [passed_closing, List.append_nil]
        exact ih hlt

/-- Over every split of a stream into calls that do not fail, the same octets go to nghttp2 with the
same events between them. What does not go there is an incomplete header at the end, or starts with
the first frame that is refused; and a header block is complete when all of its last frame went. -/
theorem receive_in_pieces (outside : InboundOutside) (role : Role) (calls : List RecvCall)
    (hok : ∀ e ∈ ((start role).run outside calls).2, e.isError = false) :
    let trace := ((start role).run outside calls).1.trace
    trace = whole outside role (stream calls) ∧
      (∃ kept, passed trace ++ kept = stream calls ∧
        (kept.length < kFrameHeaderBytes ∨ kFrameHeaderBytes ≤ kept.length ∧
          refuses outside (passed trace) (kept.take kFrameHeaderBytes))) ∧
      ∀ before after id, trace = before ++ .headerBlock id true :: after →
        BlockPassed (passed before) id := by
  dsimp only
  rw [run_trace role calls hok]
  refine ⟨rfl, ?_, ?_⟩
  · obtain ⟨kept, hkept, hend⟩ : ∃ kept, passed (frames outside _ _) ++ kept = _ ∧ _ :=
      kept_frames ((stream calls).take (start role).prefaceLeft)
        ((stream calls).drop (start role).prefaceLeft)
    rw [whole, passed_append, passed_octets]
    refine ⟨kept, ?_, hend⟩
    rw [List.append_assoc, hkept, List.take_append_drop]
  · have h : Completes [] (whole outside role (stream calls)) := by
      apply (completes_octets _ _).append
      rw [passed_octets]
      exact completes_frames _ _
    exact h

/-- An nghttp2 that takes everything. -/
def willing : InboundOutside where
  memRecv2 _ bytes := (bytes.length, {})
  terminateSession _ _ := ⟨0, Int.le_refl 0⟩
  maxFrameSize _ := 16384
  listener := some fun _ => false

theorem receive_in_pieces_headers :
    ((start .hClient).run willing
        [⟨[0, 0, 1, 1], false, {}⟩, ⟨[4, 0, 0, 0, 3, 130], false, {}⟩]).1.trace =
      whole willing .hClient [0, 0, 1, 1, 4, 0, 0, 0, 3, 130] :=
  (receive_in_pieces willing .hClient
    [⟨[0, 0, 1, 1], false, {}⟩, ⟨[4, 0, 0, 0, 3, 130], false, {}⟩] (by decide +kernel)).1

/-- An incomplete header at the end of a stream does not go to nghttp2. -/
theorem partial_header_kept :
    ¬∀ (outside : InboundOutside) (role : Role) (calls : List RecvCall),
      (∀ e ∈ ((start role).run outside calls).2, e.isError = false) →
      let octets := passed ((start role).run outside calls).1.trace
      octets = stream calls ∨ ∃ header rest, octets ++ header ++ rest = stream calls ∧
        header.length = kFrameHeaderBytes ∧ refuses outside octets header := by
  intro h
  have hnone : passed ((start .hClient).run willing [⟨[0, 0, 0], false, {}⟩]).1.trace = [] := by
    decide +kernel
  have h := h willing .hClient [⟨[0, 0, 0], false, {}⟩] (by decide +kernel)
  dsimp only at h
  rw [hnone] at h
  obtain h | ⟨header, rest, heq, hlen, -⟩ := h
  · cases h
  · have := congrArg List.length heq
    rw [List.nil_append, List.length_append, hlen, show (stream _).length = 3 from rfl,
      kFrameHeaderBytes] at this
    omega

end Inbound

end Hical.Http2
