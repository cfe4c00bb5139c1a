import Hical.Http2.Moves
import Mathlib.Data.List.Induction

namespace Hical.Http2
open Ledger

theorem Moves.rfl (y : Life) : Moves maxSize C y y :=
  .frame y.stream.initialSealed y.stream.trailersSealed y.stream.send

section Steps
variable {maxSize : Nat} {C : Prop} (x : OnStream) (g : Nat) (c : Bool)

theorem moves_fail (error : NetworkError) :
    Moves maxSize C ⟨x.stream, g, c⟩ ⟨(x.fail error).1.stream, g, c⟩ := by
  rcases x.stream_fail error with ⟨-, h⟩ | ⟨hp, e, he, h⟩
  · rw [h]
    exact .rfl _
  · rw [h]
    exact .failed hp he id

theorem moves_completeBody (hC : C) :
    Moves maxSize C ⟨x.stream, g, c⟩ ⟨x.completeBody.1.stream, g, c⟩ := by
  rw [OnStream.completeBody]
  split
  · exact .rfl _
  next hb =>
  split
  · exact moves_fail x g c _
  next hs =>
  rw [OnStream.stream_completeBodyOnce]
  exact .completed hC (Bool.eq_false_iff.2 hb) (by simpa using hs)

theorem moves_publishBody :
    Moves maxSize C ⟨x.stream, g, c⟩ ⟨x.publishBody.1.stream, g, c⟩ := by
  rw [OnStream.publishBody]
  split
  · exact .rfl _
  split
  · exact .rfl _
  next hb =>
  have hb' : x.stream.bodyComplete = true := by simpa using hb
  split
  · exact .rfl _
  next hp =>
  split
  · exact .publishedRequest hb' (Bool.eq_false_iff.2 hp)
  · exact .publishedResponse hb' (Bool.eq_false_iff.2 hp)

theorem moves_bodyResult (deadline : Nat) (hb : x.stream.bodyComplete = true) :
    Moves maxSize C ⟨x.stream, g, c⟩ ⟨(x.bodyResult deadline).1.stream, g, c⟩ := by
  rw [OnStream.bodyResult]
  dsimp only
  split
  · exact .rfl _
  split
  · exact .rfl _
  split
  · exact .rfl _
  next hp =>
  rcases x.stream_fail ⟨.hTimedOut, "HTTP/2 body 在绝对截止点之后才接收完成", none⟩ with
    ⟨hn, -⟩ | ⟨hp', e, he, h⟩
  · rw [hn] at hp
    exact absurd rfl hp
  · dsimp only
    rw [h]
    exact .late hp' he hb

theorem moves_appendBody (h : Charged maxSize x.stream) (data : Bytes) (allocates : Bool) :
    Moves maxSize C ⟨x.stream, g, c⟩ ⟨(x.appendBody maxSize data allocates).1.stream, g, c⟩ := by
  rw [OnStream.appendBody]
  dsimp only
  split
  · exact .rfl _
  split
  · split
    · exact moves_fail x g c _
    · exact .rfl _
  next hn =>
  have hb : x.stream.bodyComplete = false := by
    simp only [Bool.or_eq_true, not_or, Bool.not_eq_true] at hn
    exact hn.1.1
  split
  · exact moves_fail x g c _
  next hmax =>
  have hr := tryResize_lease x.shared x.stream.receive (x.stream.receive.amount + data.length)
  generalize x.shared.tryResize x.stream.receive (x.stream.receive.amount + data.length) = r at hr
  obtain ⟨b, l, ok⟩ := r
  rcases hr with hr | ⟨hr, hle⟩
  · cases hr
    exact moves_fail { x with shared := b } g c _
  cases hr
  dsimp only
  rw [Bool.not_true, if_neg Bool.false_ne_true]
  split
  · have hsmall := h.small
    exact .received hb (by omega) hle
  · -- the charge is put back, so that nothing has changed
    have hr := tryResize_shrink b
      { x.stream.receive with amount := x.stream.receive.amount + data.length }
      x.stream.receive.amount h.lease.1 h.lease.2 (Nat.le_add_right _ _) h.within
    have hl := congrArg Prod.fst hr
    dsimp only at hl ⊢
    rw [hl]
    exact .rfl _

theorem fail_protocol (error : NetworkError) : (x.fail error).1.stream.protocol.held = false := by
  rcases x.stream_fail error with ⟨hp, h⟩ | ⟨-, e, -, h⟩
  · rw [h]
    exact hp
  · rw [h]
    exact failedWith_protocol _

theorem bodyResult_dead (deadline : Nat) (hp : x.stream.protocol.held = false) :
    (x.bodyResult deadline).1 = x := by
  rw [OnStream.bodyResult, hp]
  split
  · rfl
  · split
    · rfl
    · rfl

theorem moves_closeProtocol :
    Moves maxSize C ⟨x.stream, g, c⟩ ⟨x.closeProtocol.stream, g, true⟩ := by
  rw [OnStream.closeProtocol]
  split
  · rcases x.stream_fail (x.stream.streamError .hHttp2StreamError
      "HTTP/2 流在 body 完成前关闭" .hStreamClosed) with ⟨hp, hx⟩ | ⟨hp, e, he, hx⟩
    · rw [hx]
      exact .dead hp
    · rw [hx]
      exact .failed hp he fun _ => rfl
  · next hb =>
    rw [OnStream.stream_ended]
    exact .closed (by simpa using hb)

theorem moves_reserveSend (n : Nat) :
    Moves maxSize C ⟨x.stream, g, c⟩ ⟨(x.reserveSend n).1.stream, g, c⟩ := by
  rw [OnStream.reserveSend]
  split
  · exact .frame x.stream.initialSealed x.stream.trailersSealed _
  · exact .rfl _

theorem moves_waitBody (deadline : Nat) :
    Moves maxSize C ⟨x.stream, g, c⟩ ⟨(x.waitBody deadline).1.stream, g, c⟩ := by
  rw [OnStream.waitBody]
  split
  · next hb => exact moves_bodyResult x g c deadline hb
  · exact .rfl _

theorem moves_wakeBody (deadline : Nat) (error : NetworkError) :
    Moves maxSize C ⟨x.stream, g, c⟩ ⟨(x.wakeBody deadline error).1.stream, g, c⟩ := by
  rw [OnStream.wakeBody]
  split
  · next hb => exact moves_bodyResult x g c deadline hb
  · rw [bodyResult_dead _ _ (fail_protocol x _)]
    exact moves_fail x g c _

end Steps

namespace StreamRun

def life (x : StreamRun) (closed : Bool) : Life := ⟨x.stream, total Bool.toNat x.guards, closed⟩

section Guards
variable {maxSize : Nat} {C : Prop} (x : StreamRun) (c : Bool)

theorem moves_guardReset (i : Nat) : Moves maxSize C (x.life c) ((x.guardReset i).life c) := by
  rw [guardReset]
  split
  · next hi =>
    have ht := total_set (f := Bool.toNat) hi false
    have ht' : total Bool.toNat x.guards = total Bool.toNat (x.guards.set i false) + 1 := ht.symm
    rw [life, life, ht']
    dsimp only [stream]
    rw [OnStream.stream_finishApplication]
    exact .finished
  · exact .rfl _

theorem guardReset_getElem (hi : i < x.guards.length) : (x.guardReset i).guards[i]? = some false := by
  rw [guardReset]
  split
  · exact List.getElem?_set_self hi
  · next hn =>
    rw [List.getElem?_eq_getElem hi] at hn ⊢
    exact congrArg some (Bool.eq_false_iff.2 fun h => hn (congrArg some h))

theorem guardReset_length (i : Nat) : (x.guardReset i).guards.length = x.guards.length := by
  rw [guardReset]
  split
  · exact List.length_set
  · rfl

theorem life_guardTransfer (ht : x.guards[target]? = some false) (hne : source ≠ target) :
    (x.guardTransfer target source).life c = x.life c := by
  rw [guardTransfer]
  split
  · rfl
  · next held hs =>
    have h₁ := total_set (f := Bool.toNat) hs false
    have ht' : (x.guards.set source false)[target]? = some false := by
      rw [List.getElem?_set_ne hne]
      exact ht
    have h₂ := total_set (f := Bool.toNat) ht' held
    have h₃ : Bool.toNat false = 0 := rfl
    rw [life, life]
    refine congrArg (Life.mk x.stream · c) ?_
    dsimp only
    omega

theorem life_append_false :
    life { x with guards := x.guards ++ [false] } c = x.life c :=
  congrArg (Life.mk x.stream · c) (total_append _ _)

theorem life_guardDestroy (i : Nat) :
    life { x.guardReset i with guards := (x.guardReset i).guards.eraseIdx i } c =
      (x.guardReset i).life c := by
  refine congrArg (Life.mk (x.guardReset i).stream · c) ?_
  by_cases hi : i < x.guards.length
  · exact total_eraseIdx (f := Bool.toNat) (guardReset_getElem x hi)
  · dsimp only
    rw [List.eraseIdx_of_length_le]
    rw [guardReset_length]
    exact Nat.le_of_not_lt hi

theorem moves_startApplication :
    Moves maxSize C (x.life c) ((x.step maxSize .startApplication).life c) := by
  have hcases : x.on.startApplication = (x.on, false) ∨ x.stream.protocol.held = true ∧
      x.stream.applicationStarted = false ∧ x.on.startApplication =
        ({ x.on with stream := { x.on.stream with applicationStarted := true } }, true) := by
    rw [OnStream.startApplication]
    split
    · exact .inl rfl
    · next hn =>
      simp only [Bool.or_eq_true, not_or, Bool.not_eq_true, Bool.not_eq_false'] at hn
      exact .inr ⟨hn.1.1, hn.1.2, rfl⟩
  rw [step]
  rcases hcases with hx | ⟨hp, hs, hx⟩
  · rw [hx]
    dsimp only
    rw [life_append_false x c]
    exact .rfl _
  · rw [hx]
    have ht : total Bool.toNat (x.guards ++ [true]) = total Bool.toNat x.guards + 1 :=
      total_append _ _
    rw [life, life]
    dsimp only
    rw [ht]
    exact .started hp hs

end Guards

theorem moves_step (x : StreamRun) (c : Bool) (h : Charged maxSize x.stream) (op : StreamOp) :
    Moves maxSize (op = .completeBody) (x.life c) ((x.step maxSize op).life (c || op.isClose)) := by
  have keep : ∀ {C : Prop} (y : StreamRun), Moves maxSize C (x.life c) (y.life c) →
      Moves maxSize C (x.life c) (y.life (c || false)) := by
    intro C y hy
    rw [Bool.or_false]
    exact hy
  cases op with
  | others shared => exact keep _ (.rfl _)
  | clock now => exact keep _ (.rfl _)
  | setHeaders initial trailers => exact keep _ (.frame initial trailers x.stream.send)
  | startApplication => exact keep _ (moves_startApplication x c)
  | guardReset i => exact keep _ (moves_guardReset x c i)
  | guardMove source =>
    apply keep
    rw [step]
    split
    · next hs =>
      rw [life_guardTransfer _ _ List.getElem?_concat_length (Nat.ne_of_lt hs),
        life_append_false]
      exact .rfl _
    · exact .rfl _
  | guardAssign target source =>
    apply keep
    rw [step]
    split
    · next hs =>
      rw [life_guardTransfer _ _ (guardReset_getElem x hs.2.2) hs.1]
      exact moves_guardReset x c target
    · exact .rfl _
  | guardDestroy i =>
    apply keep
    rw [step, life_guardDestroy]
    exact moves_guardReset x c i
  | appendBody data allocates => exact keep _ (moves_appendBody x.on _ c h data allocates)
  | completeBody => exact keep _ (moves_completeBody x.on _ c rfl)
  | publishBody => exact keep _ (moves_publishBody x.on _ c)
  | fail error => exact keep _ (moves_fail x.on _ c error)
  | reset code => exact keep _ (moves_fail x.on _ c _)
  | closeProtocol =>
    rw [StreamOp.isClose, Bool.or_true]
    exact moves_closeProtocol x.on _ c
  | reserveSend n => exact keep _ (moves_reserveSend x.on _ c n)
  | waitBody deadline => exact keep _ (moves_waitBody x.on _ c deadline)
  | wakeBody i error =>
    apply keep
    rw [step]
    split
    · exact .rfl _
    · next deadline _ => exact moves_wakeBody x.on _ c deadline error

theorem Ok.step {x : StreamRun} (h : (x.life c).Ok maxSize) (op : StreamOp) :
    ((x.step maxSize op).life (c || op.isClose)).Ok maxSize :=
  h.moves (moves_step x c h.charged op)

theorem run_snoc (maxSize : Nat) (x : StreamRun) (ops : List StreamOp) (op : StreamOp) :
    run maxSize x (ops ++ [op]) = (run maxSize x ops).step maxSize op := by
  rw [run, run, List.foldl_append]
  rfl

theorem ok_run {x : StreamRun} (h : (x.life false).Ok maxSize) (ops : List StreamOp) :
    ((run maxSize x ops).life (ops.any StreamOp.isClose)).Ok maxSize := by
  induction ops using List.reverseRecOn with
  | nil => exact h
  | append_singleton ops op ih =>
    rw [run_snoc, List.any_append, List.any_cons, List.any_nil, Bool.or_false]
    exact Ok.step ih op

end StreamRun

def Http2Stream.Succeeded (s : Http2Stream) : Prop := s.bodyComplete = true ∧ s.bodyFailed = false

section Gate
variable {y y' : Life}

theorem completed_failed (s : Http2Stream) (hb : s.bodyComplete = false) :
    (s.completed now true).bodyFailed = true := by
  rw [Http2Stream.completed, if_neg (Bool.eq_false_iff.1 hb)]

/-- The same result of the body. -/
structure SameGate (s s' : Http2Stream) : Prop where
  complete : s'.bodyComplete = s.bodyComplete
  failed : s'.bodyFailed = s.bodyFailed
  completedAt : s'.bodyCompletedAt = s.bodyCompletedAt
  body : s'.body = s.body

theorem sameGate_ended (s : Http2Stream) (e : NetworkError) :
    SameGate s ({ s with error := e } : Http2Stream).ended := by
  rw [Http2Stream.ended]
  split
  · exact ⟨rfl, rfl, rfl, rfl⟩
  · exact ⟨rfl, rfl, rfl, rfl⟩

theorem failedWith_gate (s : Http2Stream) (hb : s.bodyComplete = true) :
    SameGate s (s.failedWith now e) := by
  have hended : ({ s with error := e } : Http2Stream).ended.bodyComplete = true :=
    (ended_bodyComplete _).trans hb
  rw [Http2Stream.failedWith, Http2Stream.completed, if_pos hended]
  exact sameGate_ended s e

/-- Only the one call completes a body with success. -/
theorem Moves.succeeded (hm : Moves maxSize C y y') (hs : y'.stream.Succeeded) :
    y.stream.Succeeded ∨ C ∧ y.stream.bodyComplete = false ∧ y.stream.initialSealed = true := by
  obtain ⟨hb', hf'⟩ := hs
  cases hm with
  | frame initial trailers send | dead hp | started hp hs | finished | received hb hm hl
  | publishedRequest hb hp | publishedResponse hb hp => exact .inl ⟨hb', hf'⟩
  | @failed c c' s g now e hp he hc =>
    cases hb : s.bodyComplete with
    | true =>
      dsimp only at hf'
      rw [(failedWith_gate s hb).failed] at hf'
      exact .inl ⟨hb, hf'⟩
    | false =>
      have hended : ({ s with error := e } : Http2Stream).ended.bodyComplete = false :=
        (ended_bodyComplete _).trans hb
      dsimp only at hf'
      rw [Http2Stream.failedWith, completed_failed _ hended] at hf'
      cases hf'
  | late hp he hb => cases hf'
  | @closed s g c hb =>
    refine .inl ⟨hb, ?_⟩
    dsimp only at hf'
    rw [Http2Stream.ended] at hf'
    split at hf'
    · exact hf'
    · exact hf'
  | completed hC hb hs => exact .inr ⟨hC, hb, hs⟩

theorem Moves.error (hm : Moves maxSize C y y') (h : y.Ok maxSize)
    (he : y.stream.error.isError = true) : y'.stream.error = y.stream.error := by
  have hclosed : y.stream.protocol.held = false := by
    rw [h.opened, he]
    rfl
  cases hm with
  | frame initial trailers send | dead hp | started hp hs | finished | received hb hm hl
  | publishedRequest hb hp | publishedResponse hb hp => rfl
  | failed hp _ _ | late hp _ _ =>
    rw [hp] at hclosed
    cases hclosed
  | closed hb => exact error_ended _
  | completed hC hb hs => exact completed_error _

end Gate

/-- The calls that must not replace a result. -/
inductive StreamOp.Ends : StreamOp → Prop where
  | completeBody : Ends .completeBody
  | fail (error : NetworkError) : Ends (.fail error)
  | closeProtocol : Ends .closeProtocol

theorem sameGate_fail (x : OnStream) (error : NetworkError) (hb : x.stream.bodyComplete = true) :
    SameGate x.stream (x.fail error).1.stream := by
  rcases x.stream_fail error with ⟨-, h⟩ | ⟨-, e, -, h⟩
  · rw [h]
    exact ⟨rfl, rfl, rfl, rfl⟩
  · rw [h]
    exact failedWith_gate _ hb

theorem sameGate_step (x : StreamRun) (hb : x.on.stream.bodyComplete = true) (hop : op.Ends) :
    SameGate x.stream (x.step maxSize op).stream := by
  cases hop with
  | completeBody =>
    have hx : x.on.completeBody.1 = x.on := by
      rw [OnStream.completeBody, if_pos hb]
    rw [StreamRun.step, StreamRun.stream, StreamRun.stream, hx]
    exact ⟨rfl, rfl, rfl, rfl⟩
  | fail error => exact sameGate_fail x.on error hb
  | closeProtocol =>
    have hx : x.on.closeProtocol = x.on.resetProtocol.endApplication := by
      rw [OnStream.closeProtocol, if_neg]
      rw [hb]
      exact Bool.false_ne_true
    rw [StreamRun.step, StreamRun.stream, StreamRun.stream, hx, OnStream.stream_ended]
    exact sameGate_ended x.on.stream x.on.stream.error

section Created
variable (b : Budgets) (c : Nat)

theorem acquire_zero (r : Resource) (limit : Nat) (hr : r ≠ .hApplicationTask) :
    (b.acquire c r 0 limit).2 = ⟨some c, r, 0, limit⟩ := by
  have ha : ∀ b : Budgets, (b.takeSlot c r).2 = true := by
    intro b
    rw [Budgets.takeSlot.eq_def]
    split
    · exact absurd rfl hr
    · rfl
  rw [Budgets.acquire, if_neg (Nat.not_lt_zero _)]
  dsimp only
  rw [if_neg (Nat.not_lt_zero _), ha, if_pos rfl]

theorem ok_new {protocol application receive : Lease} (hp : protocol.held = true)
    (ha : application.held = true) (hr : receive = ⟨some place, .hReceiveBytes, 0, limit⟩)
    (id : Int) (kind : HeaderKind) (send : Lease) :
    Life.Ok maxSize ⟨{
      id := id, incomingKind := kind, protocol := protocol, application := application
      receive := receive, send := send }, 0, false⟩ := by
  subst hr
  refine ⟨⟨?_, ?_, rfl, fun _ => ha.trans hp.symm⟩,
    ⟨⟨rfl, rfl⟩, rfl, Nat.zero_le _, Nat.zero_le _, fun _ => ⟨rfl, rfl⟩⟩, hp, nofun⟩
  · dsimp only
    rw [hp]
    rfl
  · dsimp only
    rw [ha]
    rfl

theorem reserved_some {β α : Type} {p q : Bool} {b₁ b₂ b₃ b' : β} {x s : α}
    (h : (if !p then (b₁, none) else if !q then (b₂, none) else (b₃, some x)) = (b', some s)) :
    p = true ∧ q = true ∧ s = x := by
  cases p with
  | false => cases h
  | true =>
    cases q with
    | false => cases h
    | true =>
      cases h
      exact ⟨rfl, rfl, rfl⟩

/-- A stream that was created holds all of its slots, and nothing has happened to it. -/
theorem ok_create {h : Http2Budget} (hc : Http2Stream.create b h config = .ok (b', some s)) :
    Life.Ok maxSize ⟨s, 0, false⟩ ∧ s.bodyComplete = false := by
  rw [Http2Stream.create] at hc
  split at hc
  · cases hc
  split at hc
  · cases hc
  have hx := Except.ok.inj hc
  rw [Http2Stream.reserve] at hx
  obtain ⟨hp, ha, rfl⟩ := reserved_some hx
  have hr : ∀ b, (h.tryAcquireReceive b 0).2 =
      ⟨some h.state, .hReceiveBytes, 0, (b.states h.state).streamReceiveLimit⟩ := by
    intro b
    rw [Http2Budget.tryAcquireReceive, acquire_zero _ _ _ _ (by decide)]
  exact ⟨ok_new hp ha (hr _) _ _ _, rfl⟩

end Created

section Whole
variable (maxSize : Nat) (x₀ : StreamRun) (ops : List StreamOp)

/-- What holds of a stream behind a sequence of calls. -/
structure Lifecycle : Prop where
  /-- The protocol slot was given back once if the stream has failed or was closed. -/
  protocol : (x₀.run maxSize ops).stream.released.count .hProtocolStream =
    ((x₀.run maxSize ops).stream.error.isError || ops.any StreamOp.isClose).toNat
  /-- The slot of the application was given back once if the guard of the application that was started
  has ended, or, when none was started, the protocol. -/
  application : (x₀.run maxSize ops).stream.released.count .hApplicationTask =
    (if (x₀.run maxSize ops).stream.applicationStarted then !(x₀.run maxSize ops).guards.any id
      else (x₀.run maxSize ops).stream.error.isError || ops.any StreamOp.isClose).toNat
  received : (x₀.run maxSize ops).stream.receivedBytes =
    (x₀.run maxSize ops).stream.pendingBody.length +
      (x₀.run maxSize ops).stream.requestBody.length +
        (x₀.run maxSize ops).stream.responseBody.length
  body : (x₀.run maxSize ops).stream.body ≠ [] → ∃ before after,
    ops = before ++ .completeBody :: after ∧
      (x₀.run maxSize before).stream.bodyComplete = false ∧
        (x₀.run maxSize (before ++ [.completeBody])).stream.Succeeded
  error : (x₀.run maxSize ops).stream.error.isError = true → ∀ op,
    ((x₀.run maxSize ops).step maxSize op).stream.error = (x₀.run maxSize ops).stream.error
  completion : (x₀.run maxSize ops).stream.bodyComplete = true → ∀ op, op.Ends →
    SameGate (x₀.run maxSize ops).stream ((x₀.run maxSize ops).step maxSize op).stream

end Whole

theorem body_succeeded (s : Http2Stream) (h : s.body ≠ []) : s.Succeeded := by
  rw [Http2Stream.body] at h
  split at h
  · exact absurd rfl h
  · next hn =>
    simp only [Bool.or_eq_true, not_or, Bool.not_eq_true, Bool.not_eq_false'] at hn
    exact hn

/-- A body that is complete with success was completed by one of the calls. -/
theorem succeeded_run (h : (x₀.life false).Ok maxSize) (h₀ : ¬x₀.stream.Succeeded)
    (ops : List StreamOp) (hs : (StreamRun.run maxSize x₀ ops).stream.Succeeded) :
    ∃ before after, ops = before ++ .completeBody :: after ∧
      (StreamRun.run maxSize x₀ before).stream.bodyComplete = false ∧
        (StreamRun.run maxSize x₀ (before ++ [.completeBody])).stream.Succeeded := by
  induction ops using List.reverseRecOn with
  | nil => exact absurd hs h₀
  | append_singleton ops op ih =>
    have hok := StreamRun.ok_run h ops
    have hstep := hs
    rw [StreamRun.run_snoc] at hstep
    rcases (StreamRun.moves_step _ (ops.any StreamOp.isClose) hok.charged op).succeeded hstep with
      hbefore | ⟨rfl, hb, -⟩
    · obtain ⟨before, after, heq, hb, hc⟩ := ih hbefore
      refine ⟨before, after ++ [op], ?_, hb, hc⟩
      rw [heq, List.append_assoc]
      rfl
    · exact ⟨ops, [], rfl, hb, hs⟩

theorem count_of_held (h : n + Bool.toNat held = 1) (hh : held = !b) : n = b.toNat := by
  rw [hh] at h
  cases b with
  | false => exact Nat.succ.inj h
  | true => exact h

theorem any_id_eq (l : List Bool) : l.any id = decide (0 < total Bool.toNat l) := by
  induction l with
  | nil => rfl
  | cons b l ih =>
    rw [List.any_cons, ih, total_cons]
    cases b with
    | false =>
      rw [id, Bool.false_or]
      exact congrArg (fun n => decide (0 < n)) (Nat.zero_add _).symm
    | true =>
      rw [id, Bool.true_or]
      exact (decide_eq_true (Nat.add_pos_left Nat.one_pos _)).symm

/-- Whatever is called on a stream that was created, in whatever order, each of its slots is given
back once, its charge is the length of its body, and its first result stays. -/
theorem stream_lifecycle (maxSize : Nat) (b b' : Budgets) (h : Http2Budget) (config : StreamConfig)
    (s : Http2Stream) (now : Nat) (hc : Http2Stream.create b h config = .ok (b', some s))
    (ops : List StreamOp) : Lifecycle maxSize { on := ⟨b', s, now⟩ } ops := by
  obtain ⟨h₀, hnew⟩ : (StreamRun.life { on := ⟨b', s, now⟩ } false).Ok maxSize ∧
    s.bodyComplete = false := ok_create b hc
  have hok := StreamRun.ok_run h₀ ops
  generalize hx : StreamRun.run maxSize { on := ⟨b', s, now⟩ } ops = x at hok
  have hopened : x.stream.protocol.held =
      !(x.stream.error.isError || ops.any StreamOp.isClose) := hok.opened
  have hslots : Slots (total Bool.toNat x.guards) x.stream := hok.slots
  refine ⟨?_, ?_, ?_, ?_, ?_, ?_⟩
  · rw [hx]
    exact count_of_held hslots.protocolOnce hopened
  · rw [hx]
    apply count_of_held hslots.applicationOnce
    cases hs : x.stream.applicationStarted with
    | false =>
      rw [if_neg Bool.false_ne_true, hslots.unstarted hs]
      exact hopened
    | true =>
      rw [if_pos rfl, Bool.not_not, any_id_eq, hslots.guards, hs, Bool.true_and]
      cases x.stream.application.held with
      | false => rfl
      | true => rfl
  · rw [hx]
    exact hok.charged.received
  · intro hb
    apply succeeded_run h₀ _ ops (body_succeeded _ hb)
    rintro ⟨hs, -⟩
    exact Bool.false_ne_true (hnew.symm.trans hs)
  · intro he op
    rw [hx] at he ⊢
    exact (StreamRun.moves_step x _ hok.charged op).error hok he
  · intro hb op hop
    rw [hx] at hb ⊢
    exact sameGate_step x hb hop

def oneConnection : Budgets where
  services _ := ⟨1, 0⟩
  serviceCount := 1
  states _ := { limits := Budgets.limitsOf .hServer {}, streamReceiveLimit := 1024, service := some 0 }
  stateCount := 1

def created : Except String (Budgets × Option Http2Stream) → Bool
  | .ok (_, some _) => true
  | _ => false

theorem exists_created (h : created r = true) : ∃ b s, r = .ok (b, some s) := by
  rcases r with _ | ⟨b, _ | s⟩
  · cases h
  · cases h
  · exact ⟨b, s, rfl⟩

/-- A request whose body comes and is waited for, and whose application is still there when the protocol
ends. -/
def servedOps : List StreamOp :=
  [.setHeaders true false, .startApplication, .appendBody [1, 2] true, .waitBody 10, .completeBody,
    .wakeBody 0 {}, .publishBody, .guardMove 0, .closeProtocol, .guardDestroy 1]

/-- The body of a stream that was created, and the slots that it gave back, behind these calls. -/
def servedBy : Except String (Budgets × Option Http2Stream) → Option (Bytes × List Resource)
  | .ok (b, some s) =>
    let x := StreamRun.run 1024 { on := ⟨b, s, 0⟩ } servedOps
    some (x.stream.body, x.stream.released)
  | _ => none

theorem stream_lifecycle_served : ∃ b s,
    Http2Stream.create oneConnection ⟨.hServer, 0⟩ { streamId := 1 } = .ok (b, some s) ∧
      (StreamRun.run 1024 { on := ⟨b, s, 0⟩ } servedOps).stream.body = [1, 2] ∧
      (StreamRun.run 1024 { on := ⟨b, s, 0⟩ } servedOps).stream.released = [.hProtocolStream, .hApplicationTask] ∧
      Lifecycle 1024 { on := ⟨b, s, 0⟩ } servedOps := by
  have hcreated : created (Http2Stream.create oneConnection ⟨.hServer, 0⟩ { streamId := 1 }) := by
    decide +kernel
  have hserved : servedBy (Http2Stream.create oneConnection ⟨.hServer, 0⟩ { streamId := 1 }) =
      some ([1, 2], [.hProtocolStream, .hApplicationTask]) := by
    decide +kernel
  obtain ⟨b, s, hc⟩ := exists_created hcreated
  rw [hc, servedBy] at hserved
  obtain ⟨hbody, hreleased⟩ := Prod.mk.inj (Option.some.inj hserved)
  exact ⟨b, s, hc, hbody, hreleased, stream_lifecycle 1024 oneConnection b _ _ s 0 hc servedOps⟩

end Hical.Http2
