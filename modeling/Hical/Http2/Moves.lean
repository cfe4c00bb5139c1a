import Hical.Http2.Stream

namespace Hical.Http2
open Ledger

/-- A stream with the guards of its application and those who wait for its body. -/
structure StreamRun where
  on : OnStream
  guards : List Bool := []
  waiters : List Nat := []

/-- What can happen to a stream: the calls, and what others do to the shared state, the clock and the
header blocks in between. -/
inductive StreamOp where
  | others (shared : Budgets)
  | clock (now : Nat)
  | setHeaders (initialSealed trailersSealed : Bool)
  | startApplication
  | guardReset (i : Nat)
  | guardMove (source : Nat)
  | guardAssign (target source : Nat)
  | guardDestroy (i : Nat)
  | appendBody (bytes : Bytes) (allocates : Bool)
  | completeBody
  | publishBody
  | fail (error : NetworkError)
  | reset (code : Http2Code)
  | closeProtocol
  | reserveSend (bytes : Nat)
  | waitBody (deadline : Nat)
  | wakeBody (i : Nat) (error : NetworkError)

def StreamOp.isClose : StreamOp → Bool
  | .closeProtocol => true
  | _ => false

namespace StreamRun

def stream (x : StreamRun) : Http2Stream := x.on.stream

/-- `ApplicationGuard::reset`. -/
def guardReset (x : StreamRun) (i : Nat) : StreamRun :=
  if x.guards[i]? = some true then
    { x with on := x.on.finishApplication, guards := x.guards.set i false }
  else x

/-- The move of a guard into the place of one that holds nothing. -/
def guardTransfer (x : StreamRun) (target source : Nat) : StreamRun :=
  match x.guards[source]? with
  | none => x
  | some held => { x with guards := (x.guards.set source false).set target held }

def step (maxSize : Nat) (x : StreamRun) : StreamOp → StreamRun
  | .others shared => { x with on := { x.on with shared := shared } }
  | .clock now => { x with on := { x.on with now := now } }
  | .setHeaders initial trailers =>
    { x with on := { x.on with stream := { x.on.stream with
        initialSealed := initial, trailersSealed := trailers } } }
  | .startApplication =>
    let (on, held) := x.on.startApplication
    { x with on := on, guards := x.guards ++ [held] }
  | .guardReset i => x.guardReset i
  | .guardMove source =>
    if source < x.guards.length then
      guardTransfer { x with guards := x.guards ++ [false] } x.guards.length source
    else x
  | .guardAssign target source =>
    if source ≠ target ∧ source < x.guards.length ∧ target < x.guards.length then
      (x.guardReset target).guardTransfer target source
    else x
  | .guardDestroy i => { x.guardReset i with guards := (x.guardReset i).guards.eraseIdx i }
  | .appendBody bytes allocates => { x with on := (x.on.appendBody maxSize bytes allocates).1 }
  | .completeBody => { x with on := x.on.completeBody.1 }
  | .publishBody => { x with on := x.on.publishBody.1 }
  | .fail error => { x with on := (x.on.fail error).1 }
  | .reset code => { x with on := x.on.reset code }
  | .closeProtocol => { x with on := x.on.closeProtocol }
  | .reserveSend bytes => { x with on := (x.on.reserveSend bytes).1 }
  | .waitBody deadline =>
    { x with
      on := (x.on.waitBody deadline).1
      waiters := if x.on.stream.bodyComplete then x.waiters else x.waiters ++ [deadline] }
  | .wakeBody i error =>
    match x.waiters[i]? with
    | none => x
    | some deadline =>
      { x with on := (x.on.wakeBody deadline error).1, waiters := x.waiters.eraseIdx i }

def run (maxSize : Nat) (x : StreamRun) (ops : List StreamOp) : StreamRun :=
  ops.foldl (step maxSize) x

end StreamRun

/-- What is left of a lease that was given back. -/
def Lease.cleared (l : Lease) : Lease :=
  match l.state with
  | none => l
  | some _ => { l with state := none, amount := 0 }

theorem reset_cleared (b : Budgets) (l : Lease) : (b.reset l).2 = l.cleared := by
  rw [Budgets.reset, Lease.cleared]
  cases l.state with
  | none => rfl
  | some c => rfl

theorem Lease.cleared_held (l : Lease) : l.cleared.held = false := by
  rw [Lease.cleared, Lease.held]
  split
  · next h => rw [h]; rfl
  · rfl

theorem tryResize_lease (b : Budgets) (l : Lease) (bytes : Nat) :
    (b.tryResize l bytes).2 = (l, false) ∨
      (b.tryResize l bytes).2 = ({ l with amount := bytes }, true) ∧ bytes ≤ l.limit := by
  rw [Budgets.tryResize]
  split
  · exact .inl rfl
  split
  · exact .inl rfl
  next hn =>
  have hle : bytes ≤ l.limit := Nat.le_of_not_lt fun h => hn (.inr h)
  dsimp only
  split
  · split
    · exact .inl rfl
    · exact .inr ⟨rfl, hle⟩
  · exact .inr ⟨rfl, hle⟩

theorem tryResize_shrink (b : Budgets) (l : Lease) (n : Nat) (hs : l.held = true)
    (hr : l.resource.isSlot = false) (hn : n ≤ l.amount) (hl : n ≤ l.limit) :
    (b.tryResize l n).2 = ({ l with amount := n }, true) := by
  rw [Budgets.tryResize]
  split
  · next h =>
    rw [Lease.held, h] at hs
    cases hs
  rw [hr, if_neg (fun h => h.elim Bool.false_ne_true (Nat.not_lt_of_le hl))]
  dsimp only
  rw [if_neg (Nat.not_lt_of_le hn)]

namespace Http2Stream

def dropProtocol (s : Http2Stream) : Http2Stream :=
  { s with
    protocol := s.protocol.cleared
    released := s.released ++ if s.protocol.held then [.hProtocolStream] else [] }

def dropApplication (s : Http2Stream) : Http2Stream :=
  { s with
    applicationFinished := true
    application := s.application.cleared
    released := s.released ++ if s.application.held then [.hApplicationTask] else [] }

def ended (s : Http2Stream) : Http2Stream :=
  if s.applicationStarted then s.dropProtocol else s.dropProtocol.dropApplication

def completed (s : Http2Stream) (now : Nat) (failed : Bool) : Http2Stream :=
  if s.bodyComplete then s
  else { s with bodyCompletedAt := now, bodyFailed := failed, bodyComplete := true }

def failedWith (s : Http2Stream) (now : Nat) (error : NetworkError) : Http2Stream :=
  ({ s with error := error } : Http2Stream).ended.completed now true

end Http2Stream

namespace OnStream
variable (x : OnStream)

theorem stream_resetProtocol : x.resetProtocol.stream = x.stream.dropProtocol := by
  rw [resetProtocol]
  dsimp only
  rw [reset_cleared]
  rfl

theorem stream_finishApplication : x.finishApplication.stream = x.stream.dropApplication := by
  rw [finishApplication]
  dsimp only
  rw [reset_cleared]
  rfl

theorem stream_ended : x.resetProtocol.endApplication.stream = x.stream.ended := by
  have hs : x.resetProtocol.stream.applicationStarted = x.stream.applicationStarted := rfl
  rw [endApplication, Http2Stream.ended, hs]
  split
  · exact stream_resetProtocol x
  · rw [stream_finishApplication, stream_resetProtocol]

theorem stream_completeBodyOnce (failed : Bool) :
    (x.completeBodyOnce failed).stream = x.stream.completed x.now failed := by
  rw [completeBodyOnce, Http2Stream.completed]
  split
  · rfl
  · rfl

theorem now_ended : x.resetProtocol.endApplication.now = x.now := by
  rw [endApplication]
  split
  · rfl
  · rfl

theorem stream_fail (error : NetworkError) :
    x.stream.protocol.held = false ∧ (x.fail error).1 = x ∨
      x.stream.protocol.held = true ∧ ∃ e, e.isError = true ∧
        (x.fail error).1.stream = x.stream.failedWith x.now e := by
  rw [fail]
  cases hp : x.stream.protocol.held with
  | false => exact .inl ⟨rfl, rfl⟩
  | true =>
    refine .inr ⟨rfl, if error.isError then error else ⟨.hOperationAborted, "HTTP/2 流已取消", none⟩,
      ?_, ?_⟩
    · split
      · assumption
      · rfl
    · rw [Bool.not_true, if_neg Bool.false_ne_true]
      dsimp only
      rw [stream_completeBodyOnce, stream_ended, now_ended]
      rfl

end OnStream

/-- A stream with the number of guards that hold it, and whether it was closed. -/
structure Life where
  stream : Http2Stream
  guards : Nat
  closed : Bool

/-- What one step can do to a stream; the last parameter says when the body may become complete. -/
inductive Moves (maxSize : Nat) (C : Prop) : Life → Life → Prop where
  | frame (initial trailers : Bool) (send : Lease) : Moves maxSize C ⟨s, g, c⟩
      ⟨{ s with initialSealed := initial, trailersSealed := trailers, send := send }, g, c⟩
  | dead (hp : s.protocol.held = false) : Moves maxSize C ⟨s, g, c⟩ ⟨s, g, true⟩
  | failed (hp : s.protocol.held = true) (he : e.isError = true) (hc : c = true → c' = true) :
      Moves maxSize C ⟨s, g, c⟩ ⟨s.failedWith now e, g, c'⟩
  | late (hp : s.protocol.held = true) (he : e.isError = true) (hb : s.bodyComplete = true) :
      Moves maxSize C ⟨s, g, c⟩ ⟨{ s.failedWith now e with bodyFailed := true }, g, c⟩
  | closed (hb : s.bodyComplete = true) : Moves maxSize C ⟨s, g, c⟩ ⟨s.ended, g, true⟩
  | started (hp : s.protocol.held = true) (hs : s.applicationStarted = false) :
      Moves maxSize C ⟨s, g, c⟩ ⟨{ s with applicationStarted := true }, g + 1, c⟩
  | finished : Moves maxSize C ⟨s, g + 1, c⟩ ⟨s.dropApplication, g, c⟩
  | received (hb : s.bodyComplete = false) (hm : s.receive.amount + body.length ≤ maxSize)
      (hl : s.receive.amount + body.length ≤ s.receive.limit) :
      Moves maxSize C ⟨s, g, c⟩
        ⟨{ s with
            receive := { s.receive with amount := s.receive.amount + body.length }
            pendingBody := s.pendingBody ++ body }, g, c⟩
  | completed (hC : C) (hb : s.bodyComplete = false) (hs : s.initialSealed = true) :
      Moves maxSize C ⟨s, g, c⟩ ⟨s.completed now false, g, c⟩
  | publishedRequest (hb : s.bodyComplete = true) (hp : s.bodyPublished = false) :
      Moves maxSize C ⟨s, g, c⟩
        ⟨{ s with requestBody := s.pendingBody, pendingBody := [], bodyPublished := true }, g, c⟩
  | publishedResponse (hb : s.bodyComplete = true) (hp : s.bodyPublished = false) :
      Moves maxSize C ⟨s, g, c⟩
        ⟨{ s with responseBody := s.pendingBody, pendingBody := [], bodyPublished := true }, g, c⟩

/-- Each slot was given back if it is not held; the application holds its slot as long as a guard
holds the stream, or, before it starts, as long as the protocol is open. -/
structure Slots (g : Nat) (s : Http2Stream) : Prop where
  protocolOnce : s.released.count .hProtocolStream + s.protocol.held.toNat = 1
  applicationOnce : s.released.count .hApplicationTask + s.application.held.toNat = 1
  guards : g = (s.applicationStarted && s.application.held).toNat
  unstarted : s.applicationStarted = false → s.application.held = s.protocol.held

/-- The charge is for the body that the stream has. -/
structure Charged (maxSize : Nat) (s : Http2Stream) : Prop where
  lease : s.receive.held = true ∧ s.receive.resource.isSlot = false
  received : s.receive.amount =
    s.pendingBody.length + s.requestBody.length + s.responseBody.length
  small : s.receive.amount ≤ maxSize
  within : s.receive.amount ≤ s.receive.limit
  unpublished : s.bodyPublished = false → s.requestBody = [] ∧ s.responseBody = []

/-- How the slots, the guards and the body of a stream fit together. -/
structure Life.Ok (maxSize : Nat) (y : Life) : Prop where
  slots : Slots y.guards y.stream
  charged : Charged maxSize y.stream
  opened : y.stream.protocol.held = !(y.stream.error.isError || y.closed)
  failed : y.stream.error.isError = true → y.stream.bodyComplete = true

section Dropped
variable (s : Http2Stream)

theorem count_released (r r' : Resource) (b : Bool) (l : List Resource) :
    (l ++ if b then [r'] else []).count r =
      l.count r + if r' = r then b.toNat else 0 := by
  cases b with
  | false =>
    rw [if_neg Bool.false_ne_true, List.append_nil]
    split
    · rfl
    · rfl
  | true =>
    rw [if_pos rfl, List.count_append, List.count_singleton]
    by_cases h : r' = r
    · subst h
      rw [if_pos rfl, beq_self_eq_true, if_pos rfl]
      rfl
    · rw [if_neg h, if_neg]
      exact fun hb => h (eq_of_beq hb)

theorem dropProtocol_once (h : s.released.count .hProtocolStream + s.protocol.held.toNat = 1) :
    s.dropProtocol.released.count .hProtocolStream = 1 ∧
      s.dropProtocol.released.count .hApplicationTask = s.released.count .hApplicationTask := by
  rw [Http2Stream.dropProtocol, count_released, count_released, if_pos rfl, if_neg (by decide)]
  exact ⟨h, rfl⟩

theorem dropApplication_once (h : s.released.count .hApplicationTask + s.application.held.toNat = 1) :
    s.dropApplication.released.count .hApplicationTask = 1 ∧
      s.dropApplication.released.count .hProtocolStream = s.released.count .hProtocolStream := by
  rw [Http2Stream.dropApplication, count_released, count_released, if_pos rfl, if_neg (by decide)]
  exact ⟨h, rfl⟩

theorem protocol_ended : s.ended.protocol.held = false := by
  rw [Http2Stream.ended]
  split
  · exact Lease.cleared_held _
  · exact Lease.cleared_held _

theorem error_ended : s.ended.error = s.error := by
  rw [Http2Stream.ended]
  split
  · rfl
  · rfl

theorem ended_bodyComplete : s.ended.bodyComplete = s.bodyComplete := by
  rw [Http2Stream.ended]
  split
  · rfl
  · rfl

theorem Slots.ended {s : Http2Stream} (h : Slots g s) : Slots g s.ended := by
  obtain ⟨hp, ha⟩ := dropProtocol_once s h.protocolOnce
  have hnone : s.dropProtocol.protocol.held = false := Lease.cleared_held _
  rw [Http2Stream.ended]
  split
  · next hs =>
    refine ⟨?_, ?_, h.guards, ?_⟩
    · rw [hp, hnone]
      rfl
    · rw [ha]
      exact h.applicationOnce
    · intro hn
      rw [show s.dropProtocol.applicationStarted = s.applicationStarted from rfl, hs] at hn
      cases hn
  · next hs =>
    have hs' : s.applicationStarted = false := Bool.eq_false_iff.2 hs
    have hnone' : s.dropProtocol.dropApplication.application.held = false := Lease.cleared_held _
    obtain ⟨ha', hp'⟩ := dropApplication_once s.dropProtocol (ha ▸ h.applicationOnce)
    refine ⟨?_, ?_, ?_, ?_⟩
    · rw [hp', hp]
      exact congrArg (1 + ·) (congrArg Bool.toNat hnone)
    · rw [ha', hnone']
      rfl
    · rw [hnone', Bool.and_false, h.guards, hs']
      rfl
    · intro _
      rw [hnone']
      exact hnone.symm

theorem Slots.dropApplication {s : Http2Stream} (h : Slots (g + 1) s) :
    Slots g s.dropApplication := by
  have hnone : s.dropApplication.application.held = false := Lease.cleared_held _
  obtain ⟨ha, hp⟩ := dropApplication_once s h.applicationOnce
  have hg := h.guards
  refine ⟨?_, ?_, ?_, ?_⟩
  · rw [hp]
    exact h.protocolOnce
  · rw [ha, hnone]
    rfl
  · rw [hnone, Bool.and_false]
    cases hb : s.applicationStarted && s.application.held with
    | false =>
      rw [hb] at hg
      cases hg
    | true =>
      rw [hb] at hg
      exact Nat.succ.inj hg
  · intro hs
    have hs' : s.applicationStarted = false := hs
    rw [hs', Bool.false_and] at hg
    cases hg

theorem Slots.completed {s : Http2Stream} (h : Slots g s) : Slots g (s.completed now failed) := by
  rw [Http2Stream.completed]
  split
  · exact h
  · exact ⟨h.protocolOnce, h.applicationOnce, h.guards, h.unstarted⟩

theorem Slots.failedWith {s : Http2Stream} (h : Slots g s) : Slots g (s.failedWith now e) := by
  have herror : Slots g { s with error := e } :=
    ⟨h.protocolOnce, h.applicationOnce, h.guards, h.unstarted⟩
  exact herror.ended.completed

theorem Charged.ended {s : Http2Stream} (h : Charged maxSize s) : Charged maxSize s.ended := by
  rw [Http2Stream.ended]
  split
  · exact ⟨h.lease, h.received, h.small, h.within, h.unpublished⟩
  · exact ⟨h.lease, h.received, h.small, h.within, h.unpublished⟩

theorem Charged.completed {s : Http2Stream} (h : Charged maxSize s) :
    Charged maxSize (s.completed now failed) := by
  rw [Http2Stream.completed]
  split
  · exact h
  · exact ⟨h.lease, h.received, h.small, h.within, h.unpublished⟩

theorem Charged.failedWith {s : Http2Stream} (h : Charged maxSize s) :
    Charged maxSize (s.failedWith now e) := by
  have herror : Charged maxSize { s with error := e } :=
    ⟨h.lease, h.received, h.small, h.within, h.unpublished⟩
  exact herror.ended.completed

theorem completed_protocol : (s.completed now failed).protocol = s.protocol := by
  rw [Http2Stream.completed]
  split
  · rfl
  · rfl

theorem completed_error : (s.completed now failed).error = s.error := by
  rw [Http2Stream.completed]
  split
  · rfl
  · rfl

theorem completed_bodyComplete : (s.completed now failed).bodyComplete = true := by
  rw [Http2Stream.completed]
  split
  · assumption
  · rfl

theorem failedWith_protocol : (s.failedWith now e).protocol.held = false := by
  rw [Http2Stream.failedWith, completed_protocol]
  exact protocol_ended _

theorem failedWith_error : (s.failedWith now e).error = e := by
  rw [Http2Stream.failedWith, completed_error]
  exact error_ended _

end Dropped

theorem Life.Ok.moves (h : Life.Ok maxSize y) (hm : Moves maxSize C y y') : Life.Ok maxSize y' := by
  obtain ⟨hs, hc, ho, hf⟩ := h
  cases hm with
  | frame initial trailers send =>
    exact ⟨⟨hs.protocolOnce, hs.applicationOnce, hs.guards, hs.unstarted⟩,
      ⟨hc.lease, hc.received, hc.small, hc.within, hc.unpublished⟩, ho, hf⟩
  | dead hp =>
    refine ⟨hs, hc, ?_, hf⟩
    dsimp only
    rw [hp, Bool.or_true]
    rfl
  | failed hp he hcc =>
    refine ⟨hs.failedWith, hc.failedWith, ?_, fun _ => completed_bodyComplete _⟩
    dsimp only
    rw [failedWith_protocol, failedWith_error, he]
    rfl
  | @late s g c now e hp he hb =>
    have hs' : Slots g (s.failedWith now e) := hs.failedWith
    have hc' : Charged maxSize (s.failedWith now e) := hc.failedWith
    refine ⟨⟨hs'.protocolOnce, hs'.applicationOnce, hs'.guards, hs'.unstarted⟩,
      ⟨hc'.lease, hc'.received, hc'.small, hc'.within, hc'.unpublished⟩, ?_,
      fun _ => completed_bodyComplete _⟩
    dsimp only
    rw [failedWith_protocol, failedWith_error, he]
    rfl
  | closed hb =>
    refine ⟨hs.ended, hc.ended, ?_, fun _ => ?_⟩
    · dsimp only
      rw [protocol_ended, Bool.or_true]
      rfl
    · exact (ended_bodyComplete _).trans hb
  | started hp hn =>
    have hheld := hs.unstarted hn
    have hg := hs.guards
    dsimp only at hheld hg
    rw [hn, Bool.false_and] at hg
    refine ⟨⟨hs.protocolOnce, hs.applicationOnce, ?_, nofun⟩,
      ⟨hc.lease, hc.received, hc.small, hc.within, hc.unpublished⟩, ho, hf⟩
    dsimp only
    rw [hheld, hp, hg]
    rfl
  | finished => exact ⟨hs.dropApplication,
      ⟨hc.lease, hc.received, hc.small, hc.within, hc.unpublished⟩, ho, hf⟩
  | received hb hm hl =>
    refine ⟨⟨hs.protocolOnce, hs.applicationOnce, hs.guards, hs.unstarted⟩,
      ⟨hc.lease, ?_, hm, hl, hc.unpublished⟩, ho, hf⟩
    have := hc.received
    dsimp only at this ⊢
    rw [List.length_append]
    omega
  | completed _ hb hi =>
    refine ⟨hs.completed, hc.completed, ?_, fun _ => completed_bodyComplete _⟩
    dsimp only
    rw [completed_protocol, completed_error]
    exact ho
  | publishedRequest hb hp =>
    refine ⟨⟨hs.protocolOnce, hs.applicationOnce, hs.guards, hs.unstarted⟩,
      ⟨hc.lease, ?_, hc.small, hc.within, nofun⟩, ho, hf⟩
    have := hc.received
    dsimp only at this ⊢
    rw [this, (hc.unpublished hp).1, List.length_nil, Nat.add_zero, Nat.zero_add]
  | publishedResponse hb hp =>
    refine ⟨⟨hs.protocolOnce, hs.applicationOnce, hs.guards, hs.unstarted⟩,
      ⟨hc.lease, ?_, hc.small, hc.within, nofun⟩, ho, hf⟩
    have := hc.received
    dsimp only at this ⊢
    rw [this, (hc.unpublished hp).2, List.length_nil, Nat.add_zero, Nat.zero_add, Nat.add_comm]

end Hical.Http2
