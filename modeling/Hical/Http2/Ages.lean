import Hical.Http2.Received

namespace Hical.Http2

/-- A stream whose body failed has an error to show for it, and one whose body did not has its header. -/
structure Http2Stream.Honest (s : Http2Stream) : Prop where
  failed : s.bodyFailed = true → s.error.isError = true
  passed : s.passed = true → s.initialSealed = true

/-- A stream at a later time. -/
structure Older (s s' : Http2Stream) : Prop where
  id : s'.id = s.id
  kind : s'.incomingKind = s.incomingKind
  initialSealed : s'.initialSealed = s.initialSealed
  complete : s.bodyComplete = true →
    s'.bodyComplete = true ∧ s'.bodyCompletedAt = s.bodyCompletedAt
  honest : s.Honest → s'.Honest

namespace Older

theorem refl (s : Http2Stream) : Older s s := ⟨rfl, rfl, rfl, fun h => ⟨h, rfl⟩, fun h => h⟩

theorem trans (h : Older s s') (h' : Older s' s'') : Older s s'' := by
  refine ⟨h'.id.trans h.id, h'.kind.trans h.kind, h'.initialSealed.trans h.initialSealed, fun hc => ?_,
    fun hh => h'.honest (h.honest hh)⟩
  obtain ⟨h₁, h₂⟩ := h.complete hc
  obtain ⟨h₃, h₄⟩ := h'.complete h₁
  exact ⟨h₃, h₄.trans h₂⟩

theorem of_frame (hid : s'.id = s.id) (hk : s'.incomingKind = s.incomingKind)
    (hi : s'.initialSealed = s.initialSealed) (hc : s'.bodyComplete = s.bodyComplete)
    (hat : s'.bodyCompletedAt = s.bodyCompletedAt) (hf : s'.bodyFailed = s.bodyFailed)
    (he : s'.error = s.error) : Older s s' := by
  refine ⟨hid, hk, hi, fun h => ⟨hc.trans h, hat⟩, fun h => ⟨fun hb => ?_, fun hp => ?_⟩⟩
  · rw [he]
    exact h.failed (hf ▸ hb)
  · rw [Http2Stream.passed, hc, hf] at hp
    rw [hi]
    exact h.passed hp

theorem ended (s : Http2Stream) : Older s s.ended := by
  rw [Http2Stream.ended]
  split
  · exact of_frame rfl rfl rfl rfl rfl rfl rfl
  · exact of_frame rfl rfl rfl rfl rfl rfl rfl

theorem completed (s : Http2Stream) (now : Nat) (failed : Bool)
    (hf : failed = true → s.error.isError = true) (hs : failed = false → s.initialSealed = true) :
    Older s (s.completed now failed) := by
  rw [Http2Stream.completed]
  split
  · exact refl s
  · next hc =>
    refine ⟨rfl, rfl, rfl, fun h => absurd h hc, fun _ => ⟨hf, fun hp => hs ?_⟩⟩
    rw [Http2Stream.passed, Bool.and_eq_true_iff, Bool.not_eq_true'] at hp
    exact hp.2

theorem failedWith (s : Http2Stream) (now : Nat) (he : e.isError = true) :
    Older s (s.failedWith now e) := by
  have herror : Older s { s with error := e } :=
    ⟨rfl, rfl, rfl, fun h => ⟨h, rfl⟩, fun h => ⟨fun _ => he, h.passed⟩⟩
  refine (herror.trans (ended _)).trans (completed _ now true (fun _ => ?_) nofun)
  rw [error_ended]
  exact he

end Older

section Calls
variable (x : OnStream)

theorem older_fail (error : NetworkError) : Older x.stream (x.fail error).1.stream := by
  rcases x.stream_fail error with ⟨-, h⟩ | ⟨-, e, he, h⟩
  · rw [h]
    exact .refl _
  · rw [h]
    exact .failedWith _ _ he

theorem older_bodyResult (deadline : Nat) : Older x.stream (x.bodyResult deadline).1.stream := by
  rw [OnStream.bodyResult]
  dsimp only
  split
  · exact .refl _
  split
  · exact .refl _
  split
  · exact .refl _
  next hheld =>
  have hold := older_fail x ⟨.hTimedOut, "HTTP/2 body 在绝对截止点之后才接收完成", none⟩
  refine ⟨hold.id, hold.kind, hold.initialSealed, hold.complete, fun _ => ⟨fun _ => ?_, fun hp => ?_⟩⟩
  · have hopen : x.stream.protocol.held = true := by
      cases hp : x.stream.protocol.held with
      | true => rfl
      | false =>
        rw [hp] at hheld
        exact absurd rfl hheld
    exact (failed_fail x _ (.inl hopen)).1
  · rw [Http2Stream.passed] at hp
    dsimp only at hp
    rw [Bool.not_true, Bool.and_false] at hp
    cases hp

/-- What is returned without an error was complete in time. -/
theorem bodyResult_inTime (deadline : Nat) (hh : x.stream.Honest)
    (he : (x.bodyResult deadline).2.isError = false) :
    (x.bodyResult deadline).1 = x ∧ x.stream.bodyCompletedAt ≤ deadline := by
  rw [OnStream.bodyResult] at he ⊢
  dsimp only at he ⊢
  split at he
  · next hf =>
    rw [hh.failed hf] at he
    cases he
  next hf =>
  rw [if_neg hf]
  split at he
  · next hle =>
    rw [if_pos hle]
    exact ⟨rfl, hle⟩
  next hle =>
  split at he
  · cases he
  · next hheld =>
    have hopen : x.stream.protocol.held = true := by
      cases hp : x.stream.protocol.held with
      | true => rfl
      | false =>
        rw [hp] at hheld
        exact absurd rfl hheld
    have := (failed_fail x ⟨.hTimedOut, "HTTP/2 body 在绝对截止点之后才接收完成", none⟩ (.inl hopen)).1
    rw [show ((x.fail ⟨.hTimedOut, "HTTP/2 body 在绝对截止点之后才接收完成", none⟩).1.stream.error).isError
      = false from he] at this
    cases this

theorem older_publishBody : Older x.stream x.publishBody.1.stream := by
  rw [OnStream.publishBody]
  split
  · exact .refl _
  split
  · exact .refl _
  split
  · exact .refl _
  split
  · exact .of_frame rfl rfl rfl rfl rfl rfl rfl
  · exact .of_frame rfl rfl rfl rfl rfl rfl rfl

theorem older_startApplication : Older x.stream x.startApplication.1.stream := by
  rw [OnStream.startApplication]
  split
  · exact .refl _
  · exact .of_frame rfl rfl rfl rfl rfl rfl rfl

theorem older_waitBody (deadline : Nat) : Older x.stream (x.waitBody deadline).1.stream := by
  rw [OnStream.waitBody]
  split
  · exact older_bodyResult x deadline
  · exact .refl _

theorem older_wakeBody (deadline : Nat) (error : NetworkError) :
    Older x.stream (x.wakeBody deadline error).1.stream := by
  rw [OnStream.wakeBody]
  split
  · exact older_bodyResult x deadline
  · exact (older_fail x _).trans (older_bodyResult _ deadline)

theorem older_apply (op : AppOp) : Older x.stream (op.apply x).stream := by
  cases op with
  | startApplication => exact older_startApplication x
  | finishApplication =>
    rw [AppOp.apply, OnStream.stream_finishApplication]
    exact .of_frame rfl rfl rfl rfl rfl rfl rfl
  | publishBody => exact older_publishBody x
  | fail error => exact older_fail x error
  | reset code => exact older_fail x _
  | waitBody deadline => exact older_waitBody x deadline
  | wakeBody deadline error => exact older_wakeBody x deadline error
  | reserveSend bytes =>
    rw [AppOp.apply, OnStream.reserveSend]
    split
    · exact .of_frame rfl rfl rfl rfl rfl rfl rfl
    · exact .refl _

theorem older_closeProtocol : Older x.stream x.closeProtocol.stream := by
  rw [OnStream.closeProtocol]
  split
  · exact older_fail x _
  · rw [OnStream.stream_ended]
    exact .ended _

theorem older_completeBody : Older x.stream x.completeBody.1.stream := by
  rw [OnStream.completeBody]
  split
  · exact .refl _
  split
  · exact older_fail x _
  · next hs =>
    rw [OnStream.stream_completeBodyOnce]
    refine .completed _ _ _ (fun h => by cases h) fun _ => ?_
    rw [Bool.not_eq_true, Bool.not_eq_false'] at hs
    exact hs

theorem older_appendBody (maxSize : Nat) (bytes : Bytes) (allocates : Bool) :
    Older x.stream (x.appendBody maxSize bytes allocates).1.stream := by
  have hfail : ∀ (y : OnStream) (error : NetworkError), Older x.stream y.stream →
      Older x.stream (y.fail error).1.stream := fun y error hy => hy.trans (older_fail y error)
  have hlease : ∀ l : Lease, Older x.stream { x.stream with receive := l } :=
    fun l => .of_frame rfl rfl rfl rfl rfl rfl rfl
  rw [OnStream.appendBody]
  dsimp only
  split
  · exact .refl _
  split
  · split
    · exact older_fail x _
    · exact .refl _
  split
  · exact older_fail x _
  split
  · exact hfail _ _ (hlease _)
  split
  · exact .of_frame rfl rfl rfl rfl rfl rfl rfl
  · exact hlease _

end Calls

/-- What a change of a receiver may do beside letting its streams get older: the initial header of a
stream is sealed, or a stream is made. -/
inductive Change where
  | nothing
  | initial (i : Nat)
  | stream
  deriving DecidableEq

def Change.count : Change → Nat
  | .stream => 1
  | _ => 0

/-- The stream that a header block is sealed for, and the others as they are. -/
def Receive.sealing (o : Change) (r : Receive H) (i : Nat) : Http2Stream :=
  if o = .initial i then { r.stream i with initialSealed := true } else r.stream i

theorem complete_sealing (o : Change) (r : Receive H) (i : Nat) :
    (r.sealing o i).bodyComplete = (r.stream i).bodyComplete := by
  rw [Receive.sealing]
  split
  · rfl
  · rfl

/-- A receiver at a later time: what was heard of a stream stays, and no block begins on a stream whose
body is complete. -/
structure Ages (o : Change) (r r' : Receive H) : Prop where
  role : r'.role = r.role
  made : r'.made = r.made + o.count
  older : ∀ i, i < r.made → Older (r.sealing o i) (r'.stream i)
  heard : ∀ i, i < r.made → (r.objects i).log <+: (r'.objects i).log ∧
    (r'.objects i).headResponse = (r.objects i).headResponse
  pending : ∀ id e', r'.find id = some e' → e'.stream < r.made → e'.pendingHeaders.isSome = true →
    (∃ e, r.find id = some e ∧ e.stream = e'.stream ∧ e.pendingHeaders.isSome = true) ∨
      (r.stream e'.stream).bodyComplete = false
  dead : r.connectionError.isError = true → r'.connectionError.isError = true
  terminal : (r.codec.terminalError.isError = true → r.streams = []) →
    r'.codec.terminalError.isError = true → r'.streams = []

namespace Ages
variable {H : Type} {r r' r'' : Receive H} {e : Entry H}

theorem of_frame (hrole : r'.role = r.role) (hmade : r'.made = r.made) (hobjects : r'.objects = r.objects)
    (hfind : ∀ id e, r'.find id = some e → r.find id = some e)
    (hdead : r.connectionError.isError = true → r'.connectionError.isError = true)
    (hterminal : (r.codec.terminalError.isError = true → r.streams = []) →
      r'.codec.terminalError.isError = true → r'.streams = []) : Ages .nothing r r' := by
  refine ⟨hrole, hmade, fun i _ => ?_, fun i _ => ?_, fun id e' hf _ hp => ?_, hdead,
    hterminal⟩
  · rw [Receive.stream, hobjects]
    exact .refl _
  · rw [hobjects]
    exact ⟨List.prefix_rfl, rfl⟩
  · exact .inl ⟨e', hfind id e' hf, rfl, hp⟩

theorem refl (r : Receive H) : Ages .nothing r r :=
  of_frame rfl rfl rfl (fun _ _ h => h) (fun h => h) fun h => h

theorem trans (h : Ages o r r') (h' : Ages .nothing r' r'') : Ages o r r'' := by
  have hlt : ∀ i, i < r.made → i < r'.made := fun i hi => by
    rw [h.made]
    exact Nat.lt_add_right _ hi
  refine ⟨h'.role.trans h.role, h'.made.trans h.made, fun i hi => ?_, fun i hi => ?_,
    fun id e'' hf hi hp => ?_, fun hd => h'.dead (h.dead hd), fun ht => h'.terminal (h.terminal ht)⟩
  · exact (h.older i hi).trans (h'.older i (hlt i hi))
  · obtain ⟨h₁, h₂⟩ := h.heard i hi
    obtain ⟨h₃, h₄⟩ := h'.heard i (hlt i hi)
    exact ⟨h₁.trans h₃, h₄.trans h₂⟩
  · have hback : (r'.stream e''.stream).bodyComplete = false →
        (r.stream e''.stream).bodyComplete = false := by
      intro hc
      refine Bool.eq_false_iff.2 fun hn => ?_
      have := (h.older _ hi).complete ((complete_sealing o r _).trans hn)
      rw [hc] at this
      cases this.1
    rcases h'.pending id e'' hf (hlt _ hi) hp with ⟨e', hf', hs', hp'⟩ | hc
    · rcases h.pending id e' hf' (hs' ▸ hi) hp' with ⟨e, hf₀, hs₀, hp₀⟩ | hc
      · exact .inl ⟨e, hf₀, hs₀.trans hs', hp₀⟩
      · exact .inr (hs' ▸ hc)
    · exact .inr (hback hc)

theorem settle (hx : Older (r.stream i) x.stream) : Ages .nothing r (r.settle i x) := by
  refine ⟨rfl, rfl, fun j _ => ?_, fun j _ => ?_, fun id e' hf _ hp => .inl ⟨e', hf, rfl, hp⟩,
    fun h => h, fun h => h⟩
  · rw [stream_settle]
    split
    · next hj =>
      rw [hj]
      exact hx
    · exact .refl _
  · rw [objects_settle]
    split
    · next hj =>
      rw [hj]
      exact ⟨List.prefix_rfl, rfl⟩
    · exact ⟨List.prefix_rfl, rfl⟩

theorem record (r : Receive H) (i : Nat) (s : Signal) : Ages .nothing r (r.record i s) := by
  have hobj : ∀ j, (r.record i s).objects j =
      if j = i then { r.objects i with log := (r.objects i).log ++ [s] } else r.objects j :=
    fun j => Function.update_apply _ _ _ _
  refine ⟨rfl, rfl, fun j _ => ?_, fun j _ => ?_, fun id e' hf _ hp => .inl ⟨e', hf, rfl, hp⟩,
    fun h => h, fun h => h⟩
  · rw [Receive.stream, hobj]
    split
    · next hj =>
      rw [hj]
      exact .refl _
    · exact .refl _
  · rw [hobj]
    split
    · next hj =>
      rw [hj]
      exact ⟨List.prefix_append _ _, rfl⟩
    · exact ⟨List.prefix_rfl, rfl⟩

theorem erase (r : Receive H) (id : Int) : Ages .nothing r (r.erase id) := by
  refine of_frame rfl rfl rfl (fun id' e hf => ?_) (fun h => h) fun h ht => ?_
  · rw [find_erase] at hf
    split at hf
    · cases hf
    · exact hf
  · rw [Receive.erase, h ht]
    rfl

/-- The entry of a stream changes; a block begins only where the body is not complete. -/
theorem put {id : Int} {e' : Entry H} (hf : r.find id = some e) (hs : e'.stream = e.stream)
    (hp : e'.pendingHeaders.isSome = true →
      e.pendingHeaders.isSome = true ∨ (r.stream e.stream).bodyComplete = false) :
    Ages .nothing r (r.put id e') := by
  refine ⟨rfl, rfl, fun i _ => .refl _, fun i _ => ⟨List.prefix_rfl, rfl⟩,
    fun id' f hf' _ hp' => ?_, fun h => h, fun h ht => ?_⟩
  · rw [find_put] at hf'
    split at hf'
    · next hid =>
      cases hf'
      rw [hid, hs]
      rcases hp hp' with hp | hc
      · exact .inl ⟨e, hf, rfl, hp⟩
      · exact .inr hc
    · exact .inl ⟨f, hf', rfl, hp'⟩
  · rw [Receive.find, h ht] at hf
    cases hf

theorem withCodec (r : Receive H) (codec : Codec)
    (h : codec.terminalError = r.codec.terminalError) : Ages .nothing r { r with codec := codec } :=
  of_frame rfl rfl rfl (fun _ _ h => h) (fun h => h) fun hr ht => hr (h ▸ ht)

theorem failStreams (error : NetworkError) (l : List (Int × Entry H)) (r : Receive H) :
    Ages .nothing r (l.foldl (fun r e => r.failStream e.2.stream error) r) := by
  induction l generalizing r with
  | nil => exact .refl r
  | cons x l ih =>
    have hfail : Ages .nothing r (r.failStream x.2.stream error) :=
      .settle (older_fail (r.on x.2.stream) error)
    exact hfail.trans (ih _)

theorem reject (r : Receive H) (id : Int) (error : NetworkError) :
    Ages .nothing r (r.reject id error).1 := by
  rw [Receive.reject]
  split
  · exact .refl r
  · next e hf =>
    exact (erase r id).trans (.settle (older_fail ((r.erase id).on e.stream) error))

theorem fail (r : Receive H) (error : NetworkError) : Ages .nothing r (r.fail error) := by
  rw [Receive.fail]
  split
  · exact .refl r
  · next hn =>
    have hclear : ∀ error, Ages .nothing r { r with connectionError := error, streams := [] } :=
      fun error => of_frame rfl rfl rfl (fun _ _ h => by cases h) (fun h => absurd h hn) fun _ _ => rfl
    exact (hclear _).trans (failStreams _ _ _)

theorem checkOperation (r : Receive H) (error : NetworkError) :
    Ages .nothing r (r.checkOperation error).1 := by
  rw [Receive.checkOperation]
  split
  · exact fail r _
  · exact .refl r

end Ages

theorem terminal_reset (c : Codec) (id result : Int) :
    (c.reset id result).1.terminalError = c.terminalError := by
  rw [Codec.reset]
  split
  · rfl
  · rw [Codec.reject]
    split
    · rfl
    · rfl

theorem terminal_consume (c : Codec) (id : Int) (bytes : Nat) (result : Int) :
    (c.consume id bytes result).1.terminalError = c.terminalError := by
  rw [Codec.consume]
  split
  · rfl
  · rw [Codec.giveBack]
    split
    · rfl
    · rfl

section Events
variable {H : Type} {r : Receive H} {id : Int} {e : Entry H} (api : HeadersApi H) (maxSize : Nat)

theorem ages_cancel (r : Receive H) (id : Int) (code : Http2Code) (result : Int) :
    Ages .nothing r (r.cancel id code result).1 := by
  rw [Receive.cancel]
  split
  · exact .refl r
  · next e hf =>
    have hreset : Ages .nothing r
        ((r.erase id).settle e.stream (((r.erase id).on e.stream).reset code)) :=
      (Ages.erase r id).trans (.settle (older_fail ((r.erase id).on e.stream) _))
    exact (hreset.trans (.withCodec _ _ (terminal_reset _ _ _))).trans (.checkOperation _ _)

theorem ages_beginBlock (hf : r.find id = some e) : Ages .nothing r (r.beginBlock api id e).1 := by
  rw [Receive.beginBlock]
  dsimp only
  split
  · exact .reject r id _
  split
  · exact .reject r id _
  next hn =>
  obtain ⟨hn, -⟩ := Bool.or_eq_false_iff.1 (Bool.eq_false_iff.2 hn)
  obtain ⟨-, hcomplete⟩ := Bool.or_eq_false_iff.1 hn
  have hrecord := Ages.record r e.stream .begun
  refine hrecord.trans (.put (e := e) hf rfl fun _ => .inr ?_)
  rw [Receive.stream, Receive.record]
  dsimp only
  rw [Function.update_self]
  exact hcomplete

theorem ages_onBeginHeaders (hr : r.role = .hClient) (id : Int) :
    Ages .nothing r (r.onBeginHeaders api id).1 := by
  rw [Receive.onBeginHeaders]
  split
  · exact .refl r
  split
  · next e hf => exact ages_beginBlock api hf
  · rw [if_pos (.inl (by rw [hr]; exact Role.noConfusion))]
    exact .refl r

theorem ages_onHeader (r : Receive H) (id : Int) (name value : Bytes) :
    Ages .nothing r (r.onHeader api id name value).1 := by
  rw [Receive.onHeader]
  split
  · exact .refl r
  next e hf =>
  split
  · exact .reject r id _
  next h hh =>
  have hput : Ages .nothing r
      (r.put id { e with pendingHeaders := some (api.append h name value).1 }) := by
    refine .put hf rfl fun _ => .inl ?_
    rw [hh]
    rfl
  dsimp only
  split
  · exact hput.trans (.reject _ id _)
  · exact hput

theorem ages_onData (r : Receive H) (id : Int) (bytes : Bytes) (allocates : Bool) (result : Int) :
    Ages .nothing r (r.onData maxSize id bytes allocates result).1 := by
  rw [Receive.onData]
  split
  · exact .refl r
  next e hf =>
  dsimp only
  split
  · exact .reject r id _
  split
  · exact .reject r id _
  split
  · exact .reject r id _
  have happend : Ages .nothing r
      (r.settle e.stream ((r.on e.stream).appendBody maxSize bytes allocates).1) :=
    .settle (older_appendBody (r.on e.stream) maxSize bytes allocates)
  split
  · exact happend
  split
  · exact happend.trans (.reject _ id _)
  · have hrecord := happend.trans (.record _ e.stream (.data bytes))
    exact (hrecord.trans (.withCodec _ _ (terminal_consume _ _ _ _))).trans (.checkOperation _ _)

theorem ages_refuse (r : Receive H) (id : Int) (error : NetworkError) (result : Int) :
    Ages .nothing r (Receive.checkOperation { (r.reject id error).1 with
        codec := ((r.reject id error).1.codec.reset id result).1 }
      ((r.reject id error).1.codec.reset id result).2).1 :=
  ((Ages.reject r id error).trans (.withCodec _ _ (terminal_reset _ _ _))).trans (.checkOperation _ _)

theorem ages_onEndStream (r : Receive H) (id : Int) (result : Int) :
    Ages .nothing r (r.onEndStream id result).1 := by
  rw [Receive.onEndStream]
  split
  · exact .refl r
  next e hf =>
  dsimp only
  split
  · split
    · exact ages_refuse r id _ result
    · exact .refl r
  split
  · exact ages_refuse r id _ result
  have hcomplete : Ages .nothing r (r.settle e.stream (r.on e.stream).completeBody.1) :=
    .settle (older_completeBody (r.on e.stream))
  split
  · exact hcomplete.trans (ages_refuse _ id _ result)
  · exact hcomplete.trans (.record _ e.stream .ended)

theorem Ages.sealInitial (r : Receive H) (i : Nat) :
    Ages (.initial i) r (r.settle i { r.on i with stream := { r.stream i with initialSealed := true } }) := by
  refine ⟨rfl, rfl, fun j _ => ?_, fun j _ => ?_, fun id e' hf _ hp => .inl ⟨e', hf, rfl, hp⟩,
    fun h => h, fun h => h⟩
  · rw [stream_settle, Receive.sealing]
    by_cases hj : j = i
    · rw [if_pos hj, if_pos (congrArg Change.initial hj.symm), hj]
      exact .refl _
    · rw [if_neg hj, if_neg fun he => hj (Change.initial.inj he).symm]
      exact .refl _
  · rw [objects_settle]
    split
    · next hj =>
      rw [hj]
      exact ⟨List.prefix_rfl, rfl⟩
    · exact ⟨List.prefix_rfl, rfl⟩

theorem ages_finishInitial (hf : r.find block.streamId = some e) (h : H) :
    Ages .nothing r (r.finishInitial api e h block []).1 ∨
      Ages (.initial e.stream) r (r.finishInitial api e h block []).1 := by
  rw [Receive.finishInitial]
  dsimp only
  split
  · exact .inl (.reject r _ _)
  generalize (if decide (r.role = .hClient) = true then r.options.maxResponseBytes.toNat
    else r.options.maxBodyBytes.toNat) = limit
  split
  · exact .inl (.reject r _ _)
  · exact .inr (((Ages.sealInitial r e.stream).trans (.record _ e.stream _)).trans
      (.put (e := e) hf rfl fun hp => absurd hp Bool.false_ne_true))

theorem unsealed_of_pending (hi : Inv r) (hf : r.find id = some e) (hp : e.pendingHeaders.isSome = true)
    (hk : e.pendingKind ≠ .hTrailers) :
    (r.stream e.stream).initialSealed = false ∧ e.pendingKind = (r.terms e.stream).kind := by
  obtain ⟨-, -, ⟨⟨ph, -, hfits, -⟩, -, -⟩⟩ := hi.entries _ e hf
  cases ph with
  | idle =>
    rw [hfits.2] at hp
    cases hp
  | heading => exact ⟨hfits.1.initialSealed, hfits.2.2⟩
  | body f got | trailed f got | complete f got =>
    rw [hfits.2.2.2] at hp
    cases hp
  | trailing f got => exact absurd hfits.2.2.2.2 hk

theorem ages_onEndHeaders (hi : Inv r) (hr : r.role = .hClient) (block : HeaderBlock) :
    Ages .nothing r (r.onEndHeaders api block []).1 ∨
      ∃ e h, r.find block.streamId = some e ∧ e.pendingHeaders = some h ∧
        (r.stream e.stream).initialSealed = false ∧ 200 ≤ api.status (api.sealBlock h).1 ∧
        Ages (.initial e.stream) r (r.onEndHeaders api block []).1 := by
  rw [Receive.onEndHeaders]
  dsimp only
  split
  · exact .inl (.refl r)
  next e hf =>
  split
  · exact .inl (.reject r _ _)
  next h hh =>
  have hp : e.pendingHeaders.isSome = true := by
    rw [hh]
    rfl
  have hput : ∀ r' : Receive H, r'.find block.streamId = some e →
      Ages .nothing r' (r'.put block.streamId { e with pendingHeaders := none }) :=
    fun r' hf' => .put hf' rfl fun hp => absurd hp Bool.false_ne_true
  split
  · exact .inl (.reject r _ _)
  next hk =>
  have hk' : e.pendingKind = block.kind := not_not.1 hk
  split
  · exact .inl (.reject r _ _)
  split
  · split
    · exact .inl (.reject r _ _)
    · have hsettle : Ages .nothing r (r.settle e.stream
          { r.on e.stream with stream := { r.stream e.stream with trailersSealed := true } }) :=
        .settle (.of_frame rfl rfl rfl rfl rfl rfl rfl)
      exact .inl ((hsettle.trans (.record _ e.stream _)).trans (hput _ hf))
  next ht =>
  obtain ⟨hsealed, hkind⟩ := unsealed_of_pending hi hf hp (hk' ▸ ht)
  have hresponse : block.kind = .hResponse := by
    rw [← hk', hkind, Terms.kind, Receive.terms, hr]
    rfl
  split
  · exact .inl (.reject r _ _)
  next hstatus =>
  split
  · split
    · exact .inl (.reject r _ _)
    · exact .inl ((Ages.record r e.stream _).trans (hput _ hf))
  · next hlate =>
    have heq : api.status (api.sealBlock h).1 = block.statusCode :=
      not_not.1 fun hn => hstatus ⟨hresponse, hn⟩
    have hle : 200 ≤ block.statusCode := Nat.le_of_not_lt fun hn => hlate ⟨hresponse, hn⟩
    rcases ages_finishInitial api hf (api.sealBlock h).1 with ha | ha
    · exact .inl ha
    · exact .inr ⟨e, h, hf, hh, hsealed, heq ▸ hle, ha⟩

theorem ages_onStreamClose (r : Receive H) (id : Int) (code : Http2Code) :
    Ages .nothing r (r.onStreamClose id code) := by
  rw [Receive.onStreamClose]
  split
  · exact .refl r
  next e hf =>
  dsimp only
  split
  · exact (Ages.erase r id).trans (.settle (older_closeProtocol ((r.erase id).on e.stream)))
  · exact (Ages.erase r id).trans (.settle (older_fail ((r.erase id).on e.stream) _))

theorem ages_onError (r : Receive H) (error : NetworkError) : Ages .nothing r (r.onError error) := by
  rw [Receive.onError]
  split
  · exact .refl r
  split
  · split
    · exact .reject r _ _
    · exact .fail r _
  · exact .fail r _

end Events

end Hical.Http2
