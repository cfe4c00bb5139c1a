import Hical.Http2.Lifecycle
import Hical.Http2.Receive

namespace Hical.Http2

namespace Http2Stream

def stored (s : Http2Stream) : Bytes :=
  if s.bodyPublished then if s.incomingKind = .hRequest then s.requestBody else s.responseBody
  else s.pendingBody

def passed (s : Http2Stream) : Bool := s.bodyComplete && !s.bodyFailed

/-- The protocol is open, or the stream has failed. -/
def Settled (s : Http2Stream) : Prop :=
  s.protocol.held = true ∨ s.error.isError = true ∧ s.bodyComplete = true

end Http2Stream

/-- What can become of a stream when nothing is received. -/
structure Quiet (s s' : Http2Stream) : Prop where
  id : s'.id = s.id
  initialSealed : s'.initialSealed = s.initialSealed
  trailersSealed : s'.trailersSealed = s.trailersSealed
  receive : s'.receive = s.receive
  stored : s'.stored = s.stored
  complete : s.bodyComplete = true → s'.bodyComplete = true
  passed : s'.passed = true → s.passed = true
  published : (s.bodyPublished = true → s.bodyComplete = true) →
    s'.bodyPublished = true → s'.bodyComplete = true
  held : s'.protocol.held = true → s.protocol.held = true

namespace Quiet

theorem refl (s : Http2Stream) : Quiet s s :=
  ⟨rfl, rfl, rfl, rfl, rfl, fun h => h, fun h => h, fun h => h, fun h => h⟩

theorem trans (h : Quiet s s') (h' : Quiet s' s'') : Quiet s s'' :=
  ⟨h'.id.trans h.id, h'.initialSealed.trans h.initialSealed,
    h'.trailersSealed.trans h.trailersSealed, h'.receive.trans h.receive, h'.stored.trans h.stored,
    fun hc => h'.complete (h.complete hc), fun hp => h.passed (h'.passed hp),
    fun hp => h'.published (h.published hp), fun hh => h.held (h'.held hh)⟩

theorem ended (s : Http2Stream) : Quiet s s.ended := by
  have hheld : s.ended.protocol.held = true → s.protocol.held = true := by
    intro h
    rw [protocol_ended] at h
    cases h
  have hframe : s.ended.id = s.id ∧ s.ended.initialSealed = s.initialSealed ∧
      s.ended.trailersSealed = s.trailersSealed ∧ s.ended.receive = s.receive ∧
      s.ended.stored = s.stored ∧ s.ended.bodyComplete = s.bodyComplete ∧
      s.ended.passed = s.passed ∧ s.ended.bodyPublished = s.bodyPublished := by
    rw [Http2Stream.ended]
    split
    · exact ⟨rfl, rfl, rfl, rfl, rfl, rfl, rfl, rfl⟩
    · exact ⟨rfl, rfl, rfl, rfl, rfl, rfl, rfl, rfl⟩
  obtain ⟨h₁, h₂, h₃, h₄, h₅, h₆, h₇, h₈⟩ := hframe
  refine ⟨h₁, h₂, h₃, h₄, h₅, ?_, ?_, ?_, hheld⟩
  · rw [h₆]
    exact fun h => h
  · rw [h₇]
    exact fun h => h
  · rw [h₆, h₈]
    exact fun h => h

theorem completed (s : Http2Stream) (now : Nat) : Quiet s (s.completed now true) := by
  rw [Http2Stream.completed]
  split
  · exact refl s
  · refine ⟨rfl, rfl, rfl, rfl, rfl, fun _ => rfl, ?_, fun _ _ => rfl, fun h => h⟩
    intro h
    cases h

theorem failedWith (s : Http2Stream) (now : Nat) (e : NetworkError) : Quiet s (s.failedWith now e) := by
  have herror : Quiet s { s with error := e } :=
    ⟨rfl, rfl, rfl, rfl, rfl, fun h => h, fun h => h, fun h => h, fun h => h⟩
  exact (herror.trans (ended _)).trans (completed _ now)

end Quiet

theorem settled_failedWith (he : e.isError = true) : (Http2Stream.failedWith s now e).Settled :=
  .inr ⟨(congrArg NetworkError.isError (failedWith_error s)).trans he, completed_bodyComplete _⟩

section Calls
variable (x : OnStream)

theorem quiet_fail (error : NetworkError) : Quiet x.stream (x.fail error).1.stream := by
  rcases x.stream_fail error with ⟨-, h⟩ | ⟨-, e, -, h⟩
  · rw [h]
    exact .refl _
  · rw [h]
    exact .failedWith _ _ _

theorem settled_fail (error : NetworkError) (h : x.stream.Settled) :
    (x.fail error).1.stream.Settled := by
  rcases x.stream_fail error with ⟨-, hx⟩ | ⟨-, e, he, hx⟩
  · rw [hx]
    exact h
  · rw [hx]
    exact settled_failedWith he

theorem held_fail (error : NetworkError) : (x.fail error).1.stream.protocol.held = false := by
  rcases x.stream_fail error with ⟨hp, hx⟩ | ⟨-, e, he, hx⟩
  · rw [hx]
    exact hp
  · rw [hx]
    exact failedWith_protocol _

theorem failed_fail (error : NetworkError) (hs : x.stream.Settled) :
    (x.fail error).1.stream.error.isError = true ∧ (x.fail error).1.stream.bodyComplete = true ∧
      (x.stream.bodyComplete = false → (x.fail error).1.stream.bodyFailed = true) := by
  rcases x.stream_fail error with ⟨hp, hx⟩ | ⟨-, e, he, hx⟩
  · rw [hx]
    obtain ⟨h₁, h₂⟩ := hs.resolve_left (fun h => Bool.false_ne_true (hp.symm.trans h))
    refine ⟨h₁, h₂, fun h => ?_⟩
    rw [h₂] at h
    cases h
  · rw [hx]
    refine ⟨(congrArg NetworkError.isError (failedWith_error _)).trans he,
      completed_bodyComplete _, fun h => ?_⟩
    have hc : ({ x.stream with error := e } : Http2Stream).ended.bodyComplete = false :=
      (ended_bodyComplete _).trans h
    rw [Http2Stream.failedWith, Http2Stream.completed, hc, if_neg Bool.false_ne_true]

theorem quiet_bodyResult (deadline : Nat) : Quiet x.stream (x.bodyResult deadline).1.stream ∧
    (x.stream.Settled → (x.bodyResult deadline).1.stream.Settled) := by
  rw [OnStream.bodyResult]
  dsimp only
  split
  · exact ⟨.refl _, fun h => h⟩
  split
  · exact ⟨.refl _, fun h => h⟩
  split
  · exact ⟨.refl _, fun h => h⟩
  · have hq := quiet_fail x ⟨.hTimedOut, "HTTP/2 body 在绝对截止点之后才接收完成", none⟩
    refine ⟨⟨hq.id, hq.initialSealed, hq.trailersSealed, hq.receive, hq.stored, hq.complete, ?_,
      hq.published, hq.held⟩, fun h => ?_⟩
    · intro h
      rw [Http2Stream.passed] at h
      dsimp only at h
      rw [Bool.not_true, Bool.and_false] at h
      cases h
    · exact settled_fail x _ h

theorem quiet_apply (op : AppOp) : Quiet x.stream (op.apply x).stream ∧
    (x.stream.Settled → (op.apply x).stream.Settled) := by
  cases op with
  | startApplication =>
    rw [AppOp.apply, OnStream.startApplication]
    split
    · exact ⟨.refl _, fun h => h⟩
    · exact ⟨⟨rfl, rfl, rfl, rfl, rfl, fun h => h, fun h => h, fun h => h, fun h => h⟩, fun h => h⟩
  | finishApplication =>
    rw [AppOp.apply, OnStream.stream_finishApplication]
    exact ⟨⟨rfl, rfl, rfl, rfl, rfl, fun h => h, fun h => h, fun h => h, fun h => h⟩, fun h => h⟩
  | publishBody =>
    rw [AppOp.apply, OnStream.publishBody]
    split
    · exact ⟨.refl _, fun h => h⟩
    split
    · exact ⟨.refl _, fun h => h⟩
    next hc =>
    have hc' : x.stream.bodyComplete = true := by
      cases h : x.stream.bodyComplete with
      | false =>
        rw [h] at hc
        exact absurd rfl hc
      | true => rfl
    split
    · exact ⟨.refl _, fun h => h⟩
    next hp =>
    split
    · next hk =>
      refine ⟨⟨rfl, rfl, rfl, rfl, ?_, fun h => h, fun h => h, fun _ _ => hc', fun h => h⟩, fun h => h⟩
      rw [Http2Stream.stored, Http2Stream.stored, if_neg hp]
      dsimp only
      rw [if_pos rfl, if_pos hk]
    · next hk =>
      refine ⟨⟨rfl, rfl, rfl, rfl, ?_, fun h => h, fun h => h, fun _ _ => hc', fun h => h⟩, fun h => h⟩
      rw [Http2Stream.stored, Http2Stream.stored, if_neg hp]
      dsimp only
      rw [if_pos rfl, if_neg hk]
  | fail error => exact ⟨quiet_fail x error, settled_fail x error⟩
  | reset code => exact ⟨quiet_fail x _, settled_fail x _⟩
  | waitBody deadline =>
    rw [AppOp.apply, OnStream.waitBody]
    split
    · exact quiet_bodyResult x deadline
    · exact ⟨.refl _, fun h => h⟩
  | wakeBody deadline error =>
    rw [AppOp.apply, OnStream.wakeBody]
    split
    · exact quiet_bodyResult x deadline
    · obtain ⟨hq, hs⟩ := quiet_bodyResult (x.fail
        (if error.isError = true then error else ⟨.hTimedOut, "HTTP/2 body 等待超时", none⟩)).1 deadline
      exact ⟨(quiet_fail x _).trans hq, fun h => hs (settled_fail x _ h)⟩
  | reserveSend bytes =>
    rw [AppOp.apply, OnStream.reserveSend]
    split
    · exact ⟨⟨rfl, rfl, rfl, rfl, rfl, fun h => h, fun h => h, fun h => h, fun h => h⟩, fun h => h⟩
    · exact ⟨.refl _, fun h => h⟩

theorem quiet_closeProtocol : Quiet x.stream x.closeProtocol.stream ∧
    x.closeProtocol.stream.protocol.held = false := by
  rw [OnStream.closeProtocol]
  split
  · exact ⟨quiet_fail x _, held_fail x _⟩
  · rw [OnStream.stream_ended]
    exact ⟨.ended _, protocol_ended _⟩

end Calls

end Hical.Http2
