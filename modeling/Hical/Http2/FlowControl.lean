import Hical.Http2.Refusal
import Hical.Http2.ServerSession

namespace Hical.Http2

namespace Receive

/-- What went back to the window of the connection. -/
def returned (r : Receive H) : List Nat := r.codec.returned

end Receive

section Silent
variable {H : Type} (r : Receive H) (api : HeadersApi H) (maxSize : Nat)

theorem returned_reset (c : Codec) (id result : Int) : (c.reset id result).1.returned = c.returned := by
  rw [Codec.reset]
  split
  · rfl
  · rw [Codec.reject]
    split
    · rfl
    · rfl

theorem returned_reject (id : Int) (error : NetworkError) :
    (r.reject id error).1.returned = r.returned := by
  rw [Receive.reject]
  split
  · rfl
  · rfl

theorem returned_fail (error : NetworkError) : (r.fail error).returned = r.returned := by
  rw [Receive.fail]
  split
  · rfl
  · obtain ⟨⟨-, -, -, -, h⟩, -⟩ := failStreams
      (if error.isError = true then error else ⟨.hOperationAborted, "HTTP/2 连接接收已取消", none⟩)
      r.streams { r with
        connectionError := if error.isError = true then error
          else ⟨.hOperationAborted, "HTTP/2 连接接收已取消", none⟩, streams := [] }
    exact congrArg Codec.returned h

theorem returned_checkOperation (error : NetworkError) :
    (r.checkOperation error).1.returned = r.returned := by
  rw [Receive.checkOperation]
  split
  · exact returned_fail r _
  · rfl

theorem returned_operation (id result : Int) :
    ({ r with codec := (r.codec.reset id result).1 }.checkOperation
      (r.codec.reset id result).2).1.returned = r.returned :=
  (returned_checkOperation _ _).trans (returned_reset r.codec id result)

theorem returned_cancel (id : Int) (code : Http2Code) (result : Int) :
    (r.cancel id code result).1.returned = r.returned := by
  rw [Receive.cancel]
  split
  · rfl
  · exact returned_operation _ id result

theorem returned_act (a : Action) : (r.act a).returned = r.returned := by
  cases a with
  | cancel id code result => exact returned_cancel r id code result
  | fail error => exact returned_fail r error
  | createStream config =>
    rw [Receive.act]
    split
    · rfl
    · rfl
    · rfl
  | addClientStream i headResponse =>
    rw [Receive.act, Receive.addClientStream]
    split
    · rfl
    dsimp only
    split
    · rfl
    · rfl
  | onStream i op =>
    rw [Receive.act]
    split
    · rfl
    · rfl
  | others shared => rfl
  | clock now => rfl
  | onCodec terminalError marked => rfl

theorem returned_calls (callback : List Action) : (r.calls callback).returned = r.returned := by
  induction callback generalizing r with
  | nil => rfl
  | cons a callback ih => exact (ih (r.act a)).trans (returned_act r a)

theorem returned_beginBlock (id : Int) (e : Entry H) :
    (r.beginBlock api id e).1.returned = r.returned := by
  rw [Receive.beginBlock]
  dsimp only
  split
  · exact returned_reject r id _
  split
  · exact returned_reject r id _
  · rfl

theorem returned_onBeginHeaders (id : Int) : (r.onBeginHeaders api id).1.returned = r.returned := by
  rw [Receive.onBeginHeaders]
  split
  · rfl
  split
  · exact returned_beginBlock r api id _
  split
  · rfl
  dsimp only
  split
  · rfl
  · rfl
  · exact returned_beginBlock _ api id _

theorem returned_onHeader (id : Int) (name value : Bytes) :
    (r.onHeader api id name value).1.returned = r.returned := by
  rw [Receive.onHeader]
  split
  · rfl
  split
  · exact returned_reject r id _
  dsimp only
  split
  · exact returned_reject _ id _
  · rfl

theorem returned_finishInitial (e : Entry H) (x : H) (block : HeaderBlock) (callback : List Action) :
    (r.finishInitial api e x block callback).1.returned = r.returned := by
  rw [Receive.finishInitial]
  dsimp only
  split
  · exact returned_reject r _ _
  generalize (if decide (r.role = .hClient) = true then r.options.maxResponseBytes.toNat
    else r.options.maxBodyBytes.toNat) = limit
  split
  · exact returned_reject r _ _
  · exact returned_calls _ callback

theorem returned_onEndHeaders (block : HeaderBlock) (callback : List Action) :
    (r.onEndHeaders api block callback).1.returned = r.returned := by
  rw [Receive.onEndHeaders]
  dsimp only
  split
  · rfl
  split
  · exact returned_reject r _ _
  split
  · exact returned_reject r _ _
  split
  · exact returned_reject r _ _
  split
  · split
    · exact returned_reject r _ _
    · rfl
  split
  · exact returned_reject r _ _
  split
  · split
    · exact returned_reject r _ _
    · exact returned_calls _ callback
  · exact returned_finishInitial r api _ _ block callback

theorem returned_onEndStream (id result : Int) :
    (r.onEndStream id result).1.returned = r.returned := by
  have hrefuse : ∀ (q : Receive H) (error : NetworkError),
      (Receive.checkOperation { (q.reject id error).1 with
          codec := ((q.reject id error).1.codec.reset id result).1 }
        ((q.reject id error).1.codec.reset id result).2).1.returned = q.returned :=
    fun q error => (returned_operation _ id result).trans (returned_reject q id error)
  rw [Receive.onEndStream]
  split
  · rfl
  dsimp only
  split
  · split
    · exact hrefuse r _
    · rfl
  split
  · exact hrefuse r _
  split
  · exact hrefuse _ _
  · rfl

theorem returned_onStreamClose (id : Int) (code : Http2Code) :
    (r.onStreamClose id code).returned = r.returned := by
  rw [Receive.onStreamClose]
  split
  · rfl
  dsimp only
  split
  · rfl
  · rfl

theorem returned_onError (error : NetworkError) : (r.onError error).returned = r.returned := by
  rw [Receive.onError]
  split
  · rfl
  split
  · split
    · exact returned_reject r _ error
    · exact returned_fail r error
  · exact returned_fail r error

end Silent

section Credits
variable {H : Type} (r : Receive H) (s : Server H) (api : HeadersApi H) (maxSize : Nat)

theorem rejectionCode_ne (error : NetworkError) : rejectionCode error ≠ .hNoError := by
  rw [rejectionCode]
  split
  · split
    · assumption
    split
    · exact nofun
    · exact nofun
  · split
    · exact nofun
    · exact nofun

theorem code_reject (id : Int) (error : NetworkError) : (r.reject id error).2 ≠ .hNoError := by
  rw [Receive.reject]
  split
  · exact rejectionCode_ne error
  · exact rejectionCode_ne error

theorem returned_consume (c : Codec) (id : Int) (n : Nat) (result : Int) :
    (c.consume id n result).2.isError = true ∨
      (c.consume id n result).1.returned = c.returned ++ [n] := by
  rw [Codec.consume]
  split
  · next h => exact .inl h
  dsimp only
  rw [Codec.giveBack]
  split
  · exact .inr rfl
  next hneg =>
  refine .inl ?_
  dsimp only
  rw [operationError, if_neg hneg]
  split
  · rfl
  dsimp only
  rw [protocolError]
  dsimp only
  split
  · rfl
  split
  · rfl
  · rfl

theorem returned_onData (id : Int) (data : Bytes) (allocates : Bool) (result : Int)
    (h : (r.onData maxSize id data allocates result).2 = .ok code) :
    (r.onData maxSize id data allocates result).1.returned =
      if code = .hNoError then r.returned ++ [data.length] else r.returned := by
  have hrefuse : ∀ (q : Receive H) (error : NetworkError), q.returned = r.returned →
      (.ok (q.reject id error).2 : Except String Http2Code) = .ok code →
      (q.reject id error).1.returned =
        if code = .hNoError then r.returned ++ [data.length] else r.returned := by
    intro q error hq hc
    cases hc
    rw [if_neg (code_reject q id error), returned_reject, hq]
  rw [Receive.onData] at h ⊢
  split at h
  · cases h
    exact (if_neg Http2Code.noConfusion).symm
  next e hf =>
  dsimp only at h ⊢
  split at h
  · next hc =>
    rw [if_pos hc]
    exact hrefuse r _ rfl h
  next hc =>
  rw [if_neg hc]
  split at h
  · next hc =>
    rw [if_pos hc]
    exact hrefuse r _ rfl h
  next hc =>
  rw [if_neg hc]
  split at h
  · next hc =>
    rw [if_pos hc]
    exact hrefuse r _ rfl h
  next hc =>
  rw [if_neg hc]
  generalize (r.on e.stream).appendBody maxSize data allocates = stored at h ⊢
  split at h
  · cases h
  next hc =>
  rw [if_neg hc]
  split at h
  · next hc =>
    rw [if_pos hc]
    exact hrefuse _ _ rfl h
  next hc =>
  rw [if_neg hc]
  dsimp only at h ⊢
  have hconsume := returned_consume r.codec id data.length result
  have hcodec : (r.settle e.stream stored.1).codec = r.codec := rfl
  rw [hcodec] at h ⊢
  generalize r.codec.consume id data.length result = done at h hconsume ⊢
  rw [returned_checkOperation]
  cases he : done.2.isError with
  | true =>
    rw [Receive.checkOperation, he, if_pos rfl] at h
    cases h
  | false =>
    rw [Receive.checkOperation, he, if_neg Bool.false_ne_true] at h
    cases h
    rw [if_pos rfl]
    exact hconsume.resolve_left (Bool.eq_false_iff.1 he)

theorem returned_resetStream (id : Int) (code : Http2Code) (result : Int) :
    (s.resetStream id code result).receive.returned = s.receive.returned := by
  rw [Server.resetStream]
  split
  · exact returned_cancel s.receive id code result
  · exact returned_reset s.receive.codec id result

theorem returned_marked (id result : Int) :
    (s.reject id result).receive.returned = s.receive.returned := by
  rw [Server.reject]
  change (s.receive.codec.reject id result).1.returned = s.receive.codec.returned
  rw [Codec.reject]
  split
  · rfl
  · rfl

/-- Nothing is reported and nothing goes back. -/
structure Server.Even (s s' : Server H) : Prop where
  reported : s'.reported = s.reported
  returned : s'.receive.returned = s.receive.returned

theorem Server.Even.trans {s s' s'' : Server H} (h : s.Even s') (h' : s'.Even s'') : s.Even s'' :=
  ⟨h'.reported.trans h.reported, h'.returned.trans h.returned⟩

theorem even_reject (id reset : Int) : s.Even (s.reject id reset) := ⟨rfl, returned_marked s id reset⟩

theorem even_resetStream (id : Int) (code : Http2Code) (result : Int) :
    s.Even (s.resetStream id code result) := by
  refine ⟨?_, returned_resetStream s id code result⟩
  rw [Server.resetStream]
  split
  · rfl
  · rfl

theorem even_answered (id : Int) (code : Except String Http2Code) (reset : Int) :
    s.Even (s.answered id code reset) := by
  rw [Server.answered.eq_def]
  split
  · exact ⟨rfl, rfl⟩
  split
  · exact ⟨rfl, rfl⟩
  · exact even_reject s id reset

theorem even_onBeginHeaders (id : Int) : s.Even (s.onBeginHeaders api id).1 := by
  rw [Server.onBeginHeaders]
  split
  · split
    · exact ⟨rfl, rfl⟩
    · exact ⟨rfl, rfl⟩
  split
  · exact ⟨rfl, rfl⟩
  · exact ⟨rfl, returned_onBeginHeaders s.receive api id⟩

theorem even_onHeader (id : Int) (name value : Bytes) (appended : NetworkError) :
    s.Even (s.onHeader api id name value appended).1 := by
  rw [Server.onHeader]
  split
  · exact ⟨rfl, rfl⟩
  · exact ⟨rfl, returned_onHeader s.receive api id name value⟩

theorem even_onInitialHeaders (block : HeaderBlock) (mapping : NetworkError) (cancel : Int) :
    s.Even (s.onInitialHeaders api block mapping cancel).1 := by
  rw [Server.onInitialHeaders]
  split
  · exact ⟨rfl, returned_onEndHeaders s.receive api block []⟩
  next e hf =>
  have hreturned := returned_onEndHeaders s.receive api block
    (s.headersReady e.stream block.streamId mapping cancel).1
  dsimp only
  split
  · split
    · exact ⟨rfl, hreturned⟩
    · exact ⟨rfl, hreturned⟩
  · exact ⟨rfl, hreturned⟩

theorem even_onEndHeaders (block : HeaderBlock) (mapping sealing : NetworkError) (cancel : Int) :
    s.Even (s.onEndHeaders api block mapping sealing cancel).1 := by
  rw [Server.onEndHeaders]
  split
  · dsimp only
    split
    · exact ⟨rfl, rfl⟩
    split
    · exact ⟨rfl, rfl⟩
    · exact ⟨rfl, rfl⟩
  · exact even_onInitialHeaders s api block mapping cancel

theorem even_onEndStream (id reset : Int) : s.Even (s.onEndStream id reset).1 := by
  rw [Server.onEndStream]
  split
  · dsimp only
    split
    · exact ⟨rfl, rfl⟩
    · exact ⟨rfl, returned_onEndStream s.receive id reset⟩
  · exact ⟨rfl, returned_onEndStream s.receive id reset⟩

theorem even_endsStream (id reset : Int) : s.Even (s.endsStream id reset) := by
  have h := even_onEndStream s id reset
  rw [Server.endsStream]
  split
  · exact ⟨rfl, rfl⟩
  dsimp only
  split
  · exact ⟨h.reported, h.returned⟩
  · exact h

theorem even_onStreamClose (id : Int) (code : Http2Code) : s.Even (s.onStreamClose id code) := by
  have h := returned_onStreamClose s.receive id code
  rw [Server.onStreamClose]
  dsimp only
  split
  · split
    · exact ⟨rfl, h⟩
    · exact ⟨rfl, h⟩
  · exact ⟨rfl, h⟩

theorem even_responds (id : Int) (submitted : NetworkError) (reset : Int) :
    s.Even (s.responds id submitted reset) := by
  rw [Server.responds]
  split
  · exact ⟨rfl, rfl⟩
  next job _ =>
  dsimp only
  split
  · exact ⟨rfl, rfl⟩
  split
  · have h := even_resetStream (s.setJob id { job with discardIncoming := !job.remoteEnded }) id
      (if submitted.code = .hResourceLimitExceeded then .hEnhanceYourCalm else .hInternalError) reset
    exact ⟨h.reported, h.returned⟩
  · exact ⟨rfl, rfl⟩

theorem even_expires (id : Int) (error : NetworkError) (reset : Int) :
    s.Even (s.expires id error reset) := by
  rw [Server.expires]
  split
  · exact ⟨rfl, rfl⟩
  next job _ =>
  split
  · exact ⟨rfl, rfl⟩
  · have h := even_resetStream { s with
      receive := s.receive.settle job.stream ((s.receive.on job.stream).fail error).1 } id .hCancel reset
    exact ⟨h.reported, h.returned⟩

theorem even_written (id reset : Int) : s.Even (s.written id reset) := by
  rw [Server.written]
  split
  · exact ⟨rfl, rfl⟩
  next job _ =>
  dsimp only
  split
  · have h := even_resetStream (s.setJob id { job with responseWritten := true }) id .hNoError reset
    exact ⟨h.reported, h.returned⟩
  · exact ⟨rfl, rfl⟩

theorem returned_sessionData (id : Int) (data : Bytes) (allocates : Bool) (consume : Int)
    (code : Http2Code) (h : (s.onData maxSize id data allocates consume).2 = .ok code) :
    (s.onData maxSize id data allocates consume).1.receive.returned =
      if code = .hNoError then s.receive.returned ++ [data.length] else s.receive.returned := by
  rw [Server.onData] at h ⊢
  split at h
  · dsimp only at h ⊢
    have hconsume := returned_consume s.receive.codec id data.length consume
    generalize s.receive.codec.consume id data.length consume = done at h hconsume ⊢
    split at h
    · cases h
    · next hn =>
      cases h
      rw [if_neg hn, if_pos rfl]
      exact hconsume.resolve_left hn
  · exact returned_onData s.receive maxSize id data allocates consume h

theorem reported_onData (id : Int) (data : Bytes) (allocates : Bool) (consume : Int) :
    (s.onData maxSize id data allocates consume).1.reported = s.reported := by
  rw [Server.onData]
  split
  · dsimp only
    split
    · rfl
    · rfl
  · rfl

theorem returned_giveBack (c : Codec) (n : Nat) (result : Int) (h : (result != 0) = false) :
    (c.giveBack n result).1.returned = c.returned ++ [n] := by
  rw [bne_eq_false_iff_eq] at h
  subst h
  rfl

theorem even_dataChunk (id : Int) (data : Bytes) (allocates : Bool) (consume reset connection : Int)
    (h : s.receive.returned = s.reported)
    (ht : (s.dataChunk maxSize id data allocates consume reset connection).terminated = false) :
    (s.dataChunk maxSize id data allocates consume reset connection).receive.returned =
      (s.dataChunk maxSize id data allocates consume reset connection).reported := by
  rw [Server.dataChunk] at ht ⊢
  dsimp only at ht ⊢
  split at ht
  · next hm =>
    rw [if_pos hm]
    obtain ⟨-, hc⟩ := Bool.or_eq_false_iff.1 ht
    change (s.receive.codec.giveBack data.length connection).1.returned = s.reported ++ [data.length]
    rw [returned_giveBack _ _ _ hc, ← h]
    rfl
  next hm =>
  rw [if_neg hm]
  have hdata := returned_sessionData { s with reported := s.reported ++ [data.length] } maxSize id data
    allocates consume
  have hreported := reported_onData { s with reported := s.reported ++ [data.length] } maxSize id data
    allocates consume
  generalize Server.onData maxSize { s with reported := s.reported ++ [data.length] } id data allocates
    consume = done at ht hdata hreported ⊢
  cases hcode : done.2 with
  | error message =>
    rw [hcode] at ht
    cases ht
  | ok code =>
    rw [hcode] at ht
    dsimp only at ht ⊢
    have hreturned := hdata code hcode
    split at ht
    · next hnone =>
      rw [if_pos hnone]
      rw [if_pos hnone] at hreturned
      rw [hreturned, hreported, ← h]
    next hnone =>
    rw [if_neg hnone]
    rw [if_neg hnone] at hreturned
    split at ht
    · next hr =>
      have : ((done.1.terminated || reset != 0) : Bool) = false := ht
      rw [hr, Bool.or_true] at this
      cases this
    next hr =>
    rw [if_neg hr]
    obtain ⟨-, hc⟩ := Bool.or_eq_false_iff.1 ht
    change ((done.1.reject id reset).receive.codec.giveBack data.length connection).1.returned =
      done.1.reported
    rw [returned_giveBack _ _ _ hc, hreported]
    have hmark : (done.1.reject id reset).receive.codec.returned = s.reported := by
      rw [← h, ← hreturned]
      exact returned_marked done.1 id reset
    rw [hmark]

theorem even_handle (event : ServerEvent) (h : s.receive.returned = s.reported)
    (ht : (s.handle api maxSize event).terminated = false) :
    (s.handle api maxSize event).receive.returned = (s.handle api maxSize event).reported := by
  have hkeep : ∀ {s' : Server H}, s.Even s' → s'.receive.returned = s'.reported := by
    intro s' he
    rw [he.returned, he.reported, h]
  cases event with
  | beginHeaders id reset =>
    exact hkeep ((even_onBeginHeaders s api id).trans (even_answered _ id _ reset))
  | header id name value within appended reset =>
    rw [Server.handle]
    split
    · exact hkeep ((even_onHeader s api id name value appended).trans (even_answered _ id _ reset))
    · exact hkeep (even_answered s id _ reset)
  | invalidHeader id reset => exact hkeep (even_reject s id reset)
  | headers block mapping sealing cancel reset ended =>
    have hfirst : s.Even (if s.receive.codec.marked block.streamId then s
        else (s.onEndHeaders api block mapping sealing cancel).1.answered block.streamId
          (.ok (s.onEndHeaders api block mapping sealing cancel).2) reset) := by
      split
      · exact ⟨rfl, rfl⟩
      · exact (even_onEndHeaders s api block mapping sealing cancel).trans (even_answered _ _ _ reset)
    rw [Server.handle]
    dsimp only
    generalize (if s.receive.codec.marked block.streamId then s
        else (s.onEndHeaders api block mapping sealing cancel).1.answered block.streamId
          (.ok (s.onEndHeaders api block mapping sealing cancel).2) reset) = s' at hfirst
    split
    · exact hkeep hfirst
    · exact hkeep (hfirst.trans (even_endsStream s' block.streamId ended))
  | dataChunk id data allocates consume reset connection =>
    exact even_dataChunk s maxSize id data allocates consume reset connection h ht
  | dataEnd id reset => exact hkeep (even_endsStream s id reset)
  | rstStream id =>
    rw [Server.handle, Server.onReset]
    split
    · exact h
    · exact h
  | streamClose id code =>
    have hfirst : s.Even (if code = .hNoError then s
        else { s with receive := s.receive.onError (protocolError id code) }) := by
      split
      · exact ⟨rfl, rfl⟩
      · exact ⟨rfl, returned_onError s.receive _⟩
    have hsecond := hfirst.trans (even_onStreamClose _ id code)
    exact hkeep ⟨hsecond.reported, hsecond.returned⟩
  | error error => exact hkeep ⟨rfl, returned_onError s.receive error⟩
  | responds id submitted reset => exact hkeep (even_responds s id submitted reset)
  | expires id error reset => exact hkeep (even_expires s id error reset)
  | written id reset => exact hkeep (even_written s id reset)
  | finishes id => exact h
  | drain => exact h
  | action a => exact hkeep ⟨rfl, returned_act s.receive a⟩

end Credits

/-- Whatever nghttp2, the application and the connection do: as long as no callback has failed, each
chunk of data that was reported went back to the window of the connection once, in the order of the
reports. -/
theorem receive_window_conserved {H : Type} (api : HeadersApi H) (maxSize : Nat) (options : Http2Options)
    (budget : Http2Budget) (shared : Budgets) (events : List ServerEvent) :
    let s := Server.run api maxSize
      { receive := { role := .hServer, options := options, budget := budget, shared := shared } } events
    s.terminated = false → s.receive.codec.returned = s.reported := by
  have hrun : ∀ s : Server H, (s.terminated = false → s.receive.returned = s.reported) →
      (s.run api maxSize events).terminated = false →
      (s.run api maxSize events).receive.returned = (s.run api maxSize events).reported := by
    induction events with
    | nil => exact fun s h => h
    | cons event events ih =>
      intro s h
      apply ih
      rw [Server.step]
      split
      · exact h
      · next ht => exact even_handle s api maxSize event (h (Bool.eq_false_iff.2 ht))
  exact hrun _ fun _ => rfl

/-- Data for streams that are not known, and for one that takes a byte and is refused the rest. -/
def strayData : List ServerEvent :=
  [.dataChunk 3 [0, 0] true 0 0 0, .beginHeaders 1 0, .headers ⟨1, .hRequest, 0, false⟩ {} {} 0 0 0,
    .dataChunk 1 [104] true 0 0 0, .dataChunk 1 [0, 0, 0] true 0 0 0, .dataChunk 5 [0, 0, 0, 0] true 0 0 0]

def strayServer : Server Unit :=
  Server.run anyHeaders 1 { receive := { role := .hServer, options := {}, budget := ⟨.hServer, 0⟩, shared := roomy } }
    strayData

theorem receive_window_conserved_stray : strayServer.receive.codec.returned = strayServer.reported ∧
    strayServer.reported = [2, 1, 3, 4] ∧ (strayServer.receive.stream 0).error.isError = true :=
  ⟨receive_window_conserved anyHeaders 1 {} ⟨.hServer, 0⟩ roomy strayData (by decide +kernel), by decide +kernel,
    by decide +kernel⟩

end Hical.Http2
