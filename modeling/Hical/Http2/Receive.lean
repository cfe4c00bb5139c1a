import Mathlib.Data.List.Induction
import Hical.Http2.Stream

namespace Hical.Http2

/-- What is heard of one message on a stream. -/
inductive Signal where
  | begun
  | block (kind : HeaderKind) (status : Nat) (endStream : Bool) (length : Option Nat)
  | data (bytes : Bytes)
  | ended
  deriving DecidableEq, Repr

/-- The final header block, as far as the end of the body depends on it. -/
structure Final where
  status : Nat
  length : Option Nat
  deriving DecidableEq, Repr

/-- Whether the message is a response, and whether that answers HEAD. -/
structure Terms where
  response : Bool
  head : Bool
  deriving DecidableEq, Repr

/-- How far a message has come, with its final header and the body up to there. -/
inductive Phase where
  | idle
  | heading
  | body (f : Final) (got : Bytes)
  | trailing (f : Final) (got : Bytes)
  | trailed (f : Final) (got : Bytes)
  | complete (f : Final) (got : Bytes)
  deriving DecidableEq, Repr

namespace Terms

def kind (t : Terms) : HeaderKind := if t.response then .hResponse else .hRequest

/-- The message must not have a body. -/
def bodyless (t : Terms) (f : Final) : Bool :=
  t.response && (t.head || f.status == 204 || f.status == 304)

def declared (t : Terms) (f : Final) : Option Nat := if t.bodyless f then none else f.length

/-- There is room for more of the body behind what there is. -/
def admits (t : Terms) (f : Final) (n more : Nat) : Bool :=
  if t.bodyless f then more == 0 else (t.declared f).all fun length => n + more ≤ length

def whole (t : Terms) (f : Final) (n : Nat) : Bool := (t.declared f).all fun length => n == length

/-- The messages of HTTP/2: blocks with 1xx, the final header, the body, and trailers that end the
stream. -/
def advance (t : Terms) : Phase → Signal → Option Phase
  | .idle, .begun => some .heading
  | .heading, .block kind status endStream length =>
    if kind ≠ t.kind then none
    else if t.response && decide (status < 200) then if endStream then none else some .idle
    else if t.response && status == 204 && length.isSome then none
    else some (.body ⟨status, length⟩ [])
  | .body f got, .begun => some (.trailing f got)
  | .body f got, .data bytes =>
    if t.admits f got.length bytes.length then some (.body f (got ++ bytes)) else none
  | .body f got, .ended => if t.whole f got.length then some (.complete f got) else none
  | .trailing f got, .block .hTrailers _ endStream _ =>
    if endStream then some (.trailed f got) else none
  | .trailed f got, .ended => if t.whole f got.length then some (.complete f got) else none
  | .complete f got, .ended => some (.complete f got)
  | _, _ => none

def phase (t : Terms) (log : List Signal) : Option Phase := log.foldlM t.advance .idle

end Terms

/-- The blocks in front of the final header. -/
def Early (log : List Signal) : Prop :=
  ∀ s ∈ log, s = .begun ∨ ∃ status length, s = .block .hResponse status false length ∧ status < 200

/-- One final header block, the body in pieces, and the rest. -/
def Opened (t : Terms) (log : List Signal) (f : Final) (got : Bytes) (rest : List Signal) : Prop :=
  ∃ (early : List Signal) (endStream : Bool) (chunks : List Bytes), Early early ∧
    (t.response = true → 200 ≤ f.status) ∧
    log = early ++ Signal.begun :: .block t.kind f.status endStream f.length ::
      (chunks.map .data ++ rest) ∧ chunks.flatten = got

def Trailers (rest : List Signal) : Prop :=
  rest = [] ∨ ∃ status length, rest = [.begun, .block .hTrailers status true length]

/-- A whole message with its body: exactly one final header block, data only between it and the
trailers, trailers only with the end of the stream, and the declared length kept unless there must not
be a body. -/
def Delimited (t : Terms) (log : List Signal) (got : Bytes) : Prop :=
  ∃ f rest n, Opened t log f got (rest ++ List.replicate (n + 1) .ended) ∧ Trailers rest ∧
    (t.bodyless f = false → ∀ length, f.length = some length → got.length = length)

/-- What was heard up to a phase. -/
def Shape (t : Terms) (log : List Signal) : Phase → Prop
  | .idle => Early log
  | .heading => ∃ early, Early early ∧ log = early ++ [.begun]
  | .body f got => Opened t log f got []
  | .trailing f got => Opened t log f got [.begun]
  | .trailed f got => ∃ rest, Opened t log f got rest ∧ Trailers rest
  | .complete _ got => Delimited t log got

section Shapes
variable {t : Terms}

theorem Early.append (h : Early log) (h' : Early log') : Early (log ++ log') := by
  intro s hs
  rcases List.mem_append.1 hs with hs | hs
  · exact h s hs
  · exact h' s hs

theorem Opened.append (h : Opened t log f got rest) (s : Signal) :
    Opened t (log ++ [s]) f got (rest ++ [s]) := by
  obtain ⟨early, endStream, chunks, he, hs, rfl, hc⟩ := h
  refine ⟨early, endStream, chunks, he, hs, ?_, hc⟩
  rw [List.append_assoc, List.cons_append, List.cons_append, List.append_assoc]

theorem Opened.data (h : Opened t log f got []) (bytes : Bytes) :
    Opened t (log ++ [.data bytes]) f (got ++ bytes) [] := by
  obtain ⟨early, endStream, chunks, he, hs, rfl, rfl⟩ := h
  refine ⟨early, endStream, chunks ++ [bytes], he, hs, ?_, ?_⟩
  · rw [List.append_nil, List.append_nil, List.map_append, List.append_assoc]
    rfl
  · rw [List.flatten_append, List.flatten_singleton]

theorem whole_length (h : t.whole f n = true) (hb : t.bodyless f = false) :
    ∀ length, f.length = some length → n = length := by
  intro length hl
  rw [Terms.whole, Terms.declared, hb, if_neg Bool.false_ne_true, hl] at h
  exact eq_of_beq h

theorem Opened.ended (h : Opened t log f got rest) (hr : Trailers rest)
    (hw : t.whole f got.length = true) : Delimited t (log ++ [.ended]) got :=
  ⟨f, rest, 0, h.append .ended, hr, whole_length hw⟩

theorem Delimited.ended (h : Delimited t log got) : Delimited t (log ++ [.ended]) got := by
  obtain ⟨f, rest, n, ho, hr, hl⟩ := h
  refine ⟨f, rest, n + 1, ?_, hr, hl⟩
  have := ho.append .ended
  rw [List.append_assoc, ← List.replicate_succ'] at this
  exact this

theorem Shape.advance (h : Shape t log ph) (hs : t.advance ph s = some ph') :
    Shape t (log ++ [s]) ph' := by
  cases ph with
  | idle =>
    cases s with
    | begun =>
      cases hs
      exact ⟨log, h, rfl⟩
    | _ => cases hs
  | heading =>
    obtain ⟨early, he, rfl⟩ := h
    cases s with
    | block kind status endStream length =>
      rw [Terms.advance] at hs
      split at hs
      · cases hs
      next hk =>
      split at hs
      · next hearly =>
        split at hs
        · cases hs
        next hend =>
        cases hs
        obtain ⟨hresp, hlt⟩ := Bool.and_eq_true_iff.1 hearly
        rw [List.append_assoc]
        refine he.append fun s hs => ?_
        rcases List.mem_cons.1 hs with rfl | hs
        · exact .inl rfl
        rcases List.mem_singleton.1 hs with rfl
        refine .inr ⟨status, length, ?_, of_decide_eq_true hlt⟩
        rw [Decidable.not_not.1 hk, Terms.kind, hresp, if_pos rfl, Bool.eq_false_iff.2 hend]
      next hlate =>
      split at hs
      · cases hs
      cases hs
      refine ⟨early, endStream, [], he, ?_, ?_, rfl⟩
      · intro hresp
        rw [hresp, Bool.true_and, decide_eq_true_iff] at hlate
        exact Nat.le_of_not_lt hlate
      · rw [List.append_assoc, Decidable.not_not.1 hk]
        rfl
    | _ => cases hs
  | body f got =>
    cases s with
    | begun =>
      cases hs
      exact Opened.append h .begun
    | block => cases hs
    | data bytes =>
      obtain ⟨-, rfl⟩ := Option.ite_some_none_eq_some.1 hs
      exact Opened.data h bytes
    | ended =>
      obtain ⟨hw, rfl⟩ := Option.ite_some_none_eq_some.1 hs
      exact Opened.ended h (.inl rfl) hw
  | trailing f got =>
    cases s with
    | block kind status endStream length =>
      cases kind with
      | hTrailers =>
        obtain ⟨he, rfl⟩ := Option.ite_some_none_eq_some.1 hs
        subst he
        exact ⟨_, Opened.append h _, .inr ⟨status, length, rfl⟩⟩
      | _ => cases hs
    | _ => cases hs
  | trailed f got =>
    obtain ⟨rest, ho, hr⟩ := h
    cases s with
    | ended =>
      obtain ⟨hw, rfl⟩ := Option.ite_some_none_eq_some.1 hs
      exact ho.ended hr hw
    | _ => cases hs
  | complete f got =>
    cases s with
    | ended =>
      cases hs
      exact Delimited.ended h
    | _ => cases hs

theorem phase_append (t : Terms) (log : List Signal) (s : Signal) :
    t.phase (log ++ [s]) = (t.phase log).bind fun ph => t.advance ph s := by
  rw [Terms.phase, Terms.phase, List.foldlM_append, Option.bind_eq_bind]
  congr 1
  funext ph
  rw [List.foldlM_cons, Option.bind_eq_bind]
  cases t.advance ph s with
  | none => rfl
  | some ph' => rfl

theorem shape_phase (log : List Signal) : ∀ ph, t.phase log = some ph → Shape t log ph := by
  induction log using List.reverseRecOn with
  | nil =>
    intro ph h
    cases h
    exact fun s hs => absurd hs List.not_mem_nil
  | append_singleton log s ih =>
    intro ph h
    rw [phase_append] at h
    obtain ⟨ph₀, h₀, hs⟩ := Option.bind_eq_some_iff.1 h
    exact (ih ph₀ h₀).advance hs

end Shapes

/-- `Http2Headers`, as far as the receiver asks for it. -/
structure HeadersApi (H : Type) where
  make : HeaderKind → Int → Http2Options → H
  append : H → Bytes → Bytes → H × NetworkError
  sealBlock : H → H × NetworkError
  contentLength : H → Option Nat
  status : H → Nat

structure HeaderBlock where
  streamId : Int
  kind : HeaderKind
  statusCode : Nat
  endStream : Bool

/-- A stream that was made. -/
structure Object where
  stream : Http2Stream
  /-- Not in the code: the policy that the stream was registered with. -/
  headResponse : Bool := false
  /-- Not in the code: what the receiver took of the message. -/
  log : List Signal := []

/-- No stream. -/
def Object.none : Object := ⟨⟨0, .hRequest, false, false, {}, {}, {}, {}, [], [], [], {}, 0, false, false,
  false, false, false, []⟩, false, []⟩

/-- `Http2Receive::Entry`; a stream is named by its number. -/
structure Entry (H : Type) where
  stream : Nat
  pendingHeaders : Option H := .none
  pendingKind : HeaderKind := .hRequest
  expectedLength : Option Nat := .none
  headResponse : Bool := false
  bodyForbidden : Bool := false

/-- `Http2Receive` with its codec, the streams that were made and the state of their leases. -/
structure Receive (H : Type) where
  role : Role
  options : Http2Options
  budget : Http2Budget
  streams : List (Int × Entry H) := []
  connectionError : NetworkError := {}
  lastServerStreamId : Int := 0
  codec : Codec := {}
  objects : Nat → Object := fun _ => .none
  made : Nat := 0
  shared : Budgets := {}
  now : Nat := 0

/-- What those do who share a stream with the receiver. -/
inductive AppOp where
  | startApplication
  | finishApplication
  | publishBody
  | fail (error : NetworkError)
  | reset (code : Http2Code)
  | waitBody (deadline : Nat)
  | wakeBody (deadline : Nat) (error : NetworkError)
  | reserveSend (bytes : Nat)

def AppOp.apply (x : OnStream) : AppOp → OnStream
  | .startApplication => x.startApplication.1
  | .finishApplication => x.finishApplication
  | .publishBody => x.publishBody.1
  | .fail error => (x.fail error).1
  | .reset code => x.reset code
  | .waitBody deadline => (x.waitBody deadline).1
  | .wakeBody deadline error => (x.wakeBody deadline error).1
  | .reserveSend bytes => (x.reserveSend bytes).1

/-- What is done in a callback or between two events, with the results of nghttp2. -/
inductive Action where
  | cancel (id : Int) (code : Http2Code) (result : Int)
  | fail (error : NetworkError)
  | createStream (config : StreamConfig)
  | addClientStream (i : Nat) (headResponse : Bool)
  | onStream (i : Nat) (op : AppOp)
  | others (shared : Budgets)
  | clock (now : Nat)
  | onCodec (terminalError : NetworkError) (marked : Int → Bool)

/-- The events, with what callbacks do, whether there is memory and the results of nghttp2. -/
inductive Event where
  | beginHeaders (id : Int)
  | header (id : Int) (name value : Bytes)
  | endHeaders (block : HeaderBlock) (callback : List Action)
  | data (id : Int) (bytes : Bytes) (allocates : Bool) (result : Int)
  | endStream (id : Int) (result : Int)
  | streamClose (id : Int) (code : Http2Code)
  | error (error : NetworkError)
  | action (a : Action)

def rejectionCode (error : NetworkError) : Http2Code :=
  match error.http2 with
  | some info =>
    if info.code ≠ .hNoError then info.code
    else if error.code = .hResourceLimitExceeded then .hEnhanceYourCalm else .hCancel
  | none => if error.code = .hResourceLimitExceeded then .hEnhanceYourCalm else .hCancel

def streamError (id : Int) (code : Http2Code) (message : String) : NetworkError :=
  ⟨if code = .hEnhanceYourCalm then .hResourceLimitExceeded else .hHttp2StreamError, message,
    some ⟨code, id⟩⟩

namespace Receive

def find (r : Receive H) (id : Int) : Option (Entry H) := r.streams.lookup id

def erase (r : Receive H) (id : Int) : Receive H :=
  { r with streams := r.streams.filter fun e => e.1 != id }

def put (r : Receive H) (id : Int) (e : Entry H) : Receive H :=
  { r with streams := (id, e) :: r.streams.filter fun e => e.1 != id }

def stream (r : Receive H) (i : Nat) : Http2Stream := (r.objects i).stream

def on (r : Receive H) (i : Nat) : OnStream := ⟨r.shared, r.stream i, r.now⟩

def settle (r : Receive H) (i : Nat) (x : OnStream) : Receive H :=
  { r with
    shared := x.shared
    objects := Function.update r.objects i { r.objects i with stream := x.stream } }

def record (r : Receive H) (i : Nat) (s : Signal) : Receive H :=
  { r with
    objects := Function.update r.objects i
      { r.objects i with log := (r.objects i).log ++ [s] } }

def failStream (r : Receive H) (i : Nat) (error : NetworkError) : Receive H :=
  r.settle i ((r.on i).fail error).1

def reject (r : Receive H) (id : Int) (error : NetworkError) : Receive H × Http2Code :=
  match r.find id with
  | none => (r, rejectionCode error)
  | some e => ((r.erase id).failStream e.stream error, rejectionCode error)

def fail (r : Receive H) (error : NetworkError) : Receive H :=
  if r.connectionError.isError then r
  else
    let error := if error.isError then error else ⟨.hOperationAborted, "HTTP/2 连接接收已取消", .none⟩
    r.streams.foldl (fun r e => r.failStream e.2.stream error)
      { r with connectionError := error, streams := [] }

def checkOperation (r : Receive H) (error : NetworkError) : Receive H × Option String :=
  if error.isError then
    (r.fail ⟨.hHttp2ConnectionError, error.message, some ⟨.hInternalError, 0⟩⟩, some error.message)
  else (r, none)

def cancel (r : Receive H) (id : Int) (code : Http2Code) (result : Int) : Receive H × Option String :=
  match r.find id with
  | none => (r, none)
  | some e =>
    let r := (r.erase id).settle e.stream (((r.erase id).on e.stream).reset code)
    let done := r.codec.reset id result
    { r with codec := done.1 }.checkOperation done.2

def add (r : Receive H) (s : Http2Stream) : Receive H :=
  { r with objects := Function.update r.objects r.made ⟨s, false, []⟩, made := r.made + 1 }

def addClientStream (r : Receive H) (i : Nat) (headResponse : Bool) : Receive H × NetworkError :=
  if r.connectionError.isError then (r, r.connectionError)
  else
    let s := r.stream i
    if r.role ≠ .hClient ∨ r.made ≤ i ∨ s.id ≤ 0 ∨ s.id % 2 = 0 ∨ s.protocolOpen = false ∨
        s.initialSealed = true ∨ (r.find s.id).isSome = true then
      (r, ⟨.hInvalidConfiguration, "HTTP/2 客户端接收流无效或已登记", .none⟩)
    else
      ({ r with
          objects := Function.update r.objects i
            { r.objects i with headResponse := headResponse } }.put s.id
        { stream := i, headResponse := headResponse }, {})

def act (r : Receive H) : Action → Receive H
  | .cancel id code result => (r.cancel id code result).1
  | .fail error => r.fail error
  | .createStream config =>
    match Http2Stream.create r.shared r.budget config with
    | .ok (b, some s) => { r with shared := b }.add s
    | .ok (b, none) => { r with shared := b }
    | .error _ => r
  | .addClientStream i headResponse => (r.addClientStream i headResponse).1
  | .onStream i op => if i < r.made then r.settle i (op.apply (r.on i)) else r
  | .others shared => { r with shared := shared }
  | .clock now => { r with now := now }
  | .onCodec terminalError marked =>
    { r with codec := { r.codec with terminalError := terminalError, marked := marked } }

def calls (r : Receive H) (callback : List Action) : Receive H := callback.foldl act r

/-- What a callback leaves of a stream is answered to the codec. -/
def answer (r : Receive H) (i : Nat) : Http2Code :=
  if (r.stream i).error.isError then rejectionCode (r.stream i).error else .hNoError

def kind (r : Receive H) : HeaderKind :=
  match r.role with
  | .hServer => .hRequest
  | .hClient => .hResponse

section Events
variable (api : HeadersApi H) (maxSize : Nat)

/-- `onBeginHeaders` from where the stream is in the table. -/
def beginBlock (r : Receive H) (id : Int) (e : Entry H) : Receive H × Http2Code :=
  let s := r.stream e.stream
  if !s.protocolOpen then r.reject id s.error
  else if e.pendingHeaders.isSome || s.bodyComplete || s.trailersSealed then
    r.reject id (streamError id .hProtocolError "HTTP/2 头部块顺序错误")
  else
    let kind := if s.initialSealed then .hTrailers else r.kind
    ((r.record e.stream .begun).put id
      { e with pendingKind := kind, pendingHeaders := some (api.make kind id r.options) }, .hNoError)

def onBeginHeaders (r : Receive H) (id : Int) : Receive H × Except String Http2Code :=
  if r.connectionError.isError then (r, .ok .hInternalError)
  else
    match r.find id with
    | some e => ((r.beginBlock api id e).1, .ok (r.beginBlock api id e).2)
    | none =>
      if r.role ≠ .hServer ∨ id ≤ r.lastServerStreamId ∨ id % 2 = 0 then (r, .ok .hStreamClosed)
      else
        let r := { r with lastServerStreamId := id }
        match Http2Stream.create r.shared r.budget
            { streamId := id, incomingKind := .hRequest, options := r.options } with
        | .error error => (r, .error error)
        | .ok (b, none) => ({ r with shared := b }, .ok .hRefusedStream)
        | .ok (b, some s) =>
          let e : Entry H := { stream := r.made }
          let r := ({ r with shared := b }.add s).put id e
          ((r.beginBlock api id e).1, .ok (r.beginBlock api id e).2)

def onHeader (r : Receive H) (id : Int) (name value : Bytes) : Receive H × Http2Code :=
  match r.find id with
  | none => (r, .hStreamClosed)
  | some e =>
    match e.pendingHeaders with
    | none => r.reject id (streamError id .hProtocolError "HTTP/2 头字段没有对应头块")
    | some h =>
      let done := api.append h name value
      let r := r.put id { e with pendingHeaders := some done.1 }
      if done.2.isError then r.reject id done.2 else (r, .hNoError)

def finishInitial (r : Receive H) (e : Entry H) (h : H) (block : HeaderBlock)
    (callback : List Action) : Receive H × Http2Code :=
  let length := api.contentLength h
  let response := decide (r.role = .hClient)
  let forbidden := response && (e.headResponse || block.statusCode == 204 || block.statusCode == 304)
  if response && block.statusCode == 204 && length.isSome then
    r.reject block.streamId
      (streamError block.streamId .hProtocolError "HTTP/2 204 响应禁止 Content-Length")
  else
    let limit := if response then r.options.maxResponseBytes.toNat else r.options.maxBodyBytes.toNat
    if !forbidden && length.any fun length => length > limit then
      r.reject block.streamId
        (streamError block.streamId .hEnhanceYourCalm "HTTP/2 声明的消息长度超过单流接收预算")
    else
      let e := { e with
        bodyForbidden := forbidden
        expectedLength := if forbidden then e.expectedLength else length
        pendingHeaders := none }
      let r := r.settle e.stream
        { r.on e.stream with stream := { r.stream e.stream with initialSealed := true } }
      let r := (r.record e.stream
        (.block block.kind block.statusCode block.endStream length)).put block.streamId e
      let r := r.calls callback
      (r, r.answer e.stream)

def onEndHeaders (r : Receive H) (block : HeaderBlock) (callback : List Action) :
    Receive H × Http2Code :=
  let id := block.streamId
  match r.find id with
  | none => (r, .hStreamClosed)
  | some e =>
    match e.pendingHeaders with
    | none => r.reject id (streamError id .hProtocolError "HTTP/2 头部块角色与流状态不一致")
    | some h =>
      if e.pendingKind ≠ block.kind then
        r.reject id (streamError id .hProtocolError "HTTP/2 头部块角色与流状态不一致")
      else
        let done := api.sealBlock h
        if done.2.isError then r.reject id done.2
        else if block.kind = .hTrailers then
          if !block.endStream then
            r.reject id (streamError id .hProtocolError "HTTP/2 尾头必须结束入站消息")
          else
            let r := r.settle e.stream
              { r.on e.stream with stream := { r.stream e.stream with trailersSealed := true } }
            ((r.record e.stream (.block block.kind block.statusCode block.endStream
              (api.contentLength done.1))).put id { e with pendingHeaders := none }, .hNoError)
        else if block.kind = .hResponse ∧ api.status done.1 ≠ block.statusCode then
          r.reject id (streamError id .hProtocolError "HTTP/2 响应状态与头块元数据不一致")
        else if block.kind = .hResponse ∧ block.statusCode < 200 then
          if block.endStream then
            r.reject id (streamError id .hProtocolError "HTTP/2 临时响应不能结束流")
          else
            let r := (r.record e.stream (.block block.kind block.statusCode block.endStream
              (api.contentLength done.1))).put id { e with pendingHeaders := none }
            let r := r.calls callback
            (r, r.answer e.stream)
        else r.finishInitial api e done.1 block callback

def onData (r : Receive H) (id : Int) (bytes : Bytes) (allocates : Bool) (result : Int) :
    Receive H × Except String Http2Code :=
  match r.find id with
  | none => (r, .ok .hStreamClosed)
  | some e =>
    let s := r.stream e.stream
    let refuse := fun (r : Receive H) error => ((r.reject id error).1, .ok (r.reject id error).2)
    if !s.protocolOpen then refuse r s.error
    else if !s.initialSealed || e.pendingHeaders.isSome || s.trailersSealed || s.bodyComplete ||
        (e.bodyForbidden && !bytes.isEmpty) then
      refuse r (streamError id .hProtocolError "HTTP/2 DATA 与消息状态或无正文语义不一致")
    else if e.expectedLength.any fun length =>
        s.receivedBytes > length || bytes.length > length - s.receivedBytes then
      refuse r (streamError id .hProtocolError "HTTP/2 DATA 超过 Content-Length")
    else
      let stored := (r.on e.stream).appendBody maxSize bytes allocates
      let r := r.settle e.stream stored.1
      if stored.2.2 then (r, .error "std::bad_alloc")
      else if stored.2.1.isError then refuse r stored.2.1
      else
        let done := r.codec.consume id bytes.length result
        let checked := { r.record e.stream (.data bytes) with codec := done.1 }.checkOperation done.2
        (checked.1, match checked.2 with
          | some message => .error message
          | none => .ok .hNoError)

def onEndStream (r : Receive H) (id : Int) (result : Int) : Receive H × Option String :=
  match r.find id with
  | none => (r, none)
  | some e =>
    let s := r.stream e.stream
    let refuse := fun (r : Receive H) error =>
      let rejected := r.reject id error
      let done := rejected.1.codec.reset id result
      { rejected.1 with codec := done.1 }.checkOperation done.2
    if !s.protocolOpen then if s.error.isError then refuse r s.error else (r, none)
    else if !s.initialSealed || e.pendingHeaders.isSome ||
        e.expectedLength.any fun length => s.receivedBytes != length then
      refuse r (streamError id .hProtocolError "HTTP/2 消息结束时头部或 Content-Length 不完整")
    else
      let done := (r.on e.stream).completeBody
      let r := r.settle e.stream done.1
      if done.2.isError then refuse r done.2 else (r.record e.stream .ended, none)

def onStreamClose (r : Receive H) (id : Int) (code : Http2Code) : Receive H :=
  match r.find id with
  | none => r
  | some e =>
    let r := r.erase id
    if code = .hNoError then r.settle e.stream (r.on e.stream).closeProtocol
    else r.settle e.stream ((r.on e.stream).reset code)

def onError (r : Receive H) (error : NetworkError) : Receive H :=
  if !error.isError then r
  else
    match error.http2 with
    | some info => if 0 < info.streamId then (r.reject info.streamId error).1 else r.fail error
    | none => r.fail error

def step (r : Receive H) : Event → Receive H
  | .beginHeaders id => (r.onBeginHeaders api id).1
  | .header id name value => (r.onHeader api id name value).1
  | .endHeaders block callback => (r.onEndHeaders api block callback).1
  | .data id bytes allocates result => (r.onData maxSize id bytes allocates result).1
  | .endStream id result => (r.onEndStream id result).1
  | .streamClose id code => r.onStreamClose id code
  | .error error => r.onError error
  | .action a => r.act a

def run (r : Receive H) (events : List Event) : Receive H := events.foldl (step api maxSize) r

end Events

end Receive

end Hical.Http2
