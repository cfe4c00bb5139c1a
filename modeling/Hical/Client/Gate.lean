import Hical.Lib.Ledger
import Hical.Client.Options

namespace Hical.Client.Gate
open Hical.Http2

/-- `HttpClient::Impl::cancelled`. -/
def cancelled : NetworkError := { code := .hOperationAborted, message := "HTTP 客户端请求已取消" }

/-- `HttpClient::Impl::requestTimedOut`. -/
def requestTimedOut : NetworkError := { code := .hTimedOut, message := "HTTP 请求已超过原绝对期限" }

/-- `GateWaiter`, with its timer: whether the wait is over and whether by an error. -/
structure GateWaiter where
  generation : Nat
  deadline : Nat
  abandoned : Bool := false
  /-- `granted`, with the number of the grant, which is not in the code. -/
  granted : Option Nat := none
  fired : Option Bool := none

/-- Where a call of `acquireGate` is, and what came of it. -/
inductive Party where
  /-- Suspended on the timer of its waiter. -/
  | waiting (waiter : GateWaiter)
  /-- Some object owns the `GateLease`; the number is that of the grant. -/
  | leased (grant : Nat)
  | rejected (failure : NetworkError)
  /-- The lease or the coroutine is gone. -/
  | over

/-- Not in the code: what was known of a waiter when it was granted the gate. -/
structure Granted where
  generation : Nat
  abandoned : Bool
  wasCurrent : Bool

/-- The part of `HttpClient::Impl` that the exchange gate is made of. -/
structure Impl where
  stopping : Bool := false
  generation : Nat := 1
  gateBusy : Bool := false
  /-- `gateWaiters_`, by the numbers of their calls. -/
  gateWaiters : List Nat := []
  parties : List Party := []
  /-- The cutoffs of the posted `stopOnLoop`. -/
  stops : List Nat := []
  /-- Not in the code: how often the gate was given. -/
  grants : Nat := 0
  /-- Not in the code: the grants that `releaseGate` was called for. -/
  released : List Nat := []
  /-- Not in the code: what held when waiters were granted. -/
  history : List Granted := []

namespace Impl

def current (c : Impl) (token : Nat) : Bool := !c.stopping && c.generation == token

def setParty (c : Impl) (i : Nat) (p : Party) : Impl := { c with parties := c.parties.set i p }

/-- `timer.cancel()`: a wait that is over already stays as it ended. -/
def cancelTimer (w : GateWaiter) : GateWaiter := { w with fired := w.fired.or (some true) }

/-- The loop of `releaseGate` over the queue. -/
def releaseLoop : List Nat → Impl → Impl
  | [], c => { c with gateWaiters := [], gateBusy := false }
  | i :: queue, c =>
    match c.parties[i]? with
    | some (.waiting w) =>
      if w.abandoned || !c.current w.generation then
        releaseLoop queue
          (c.setParty i (.waiting (cancelTimer { w with abandoned := true })))
      else
        { c.setParty i (.waiting (cancelTimer { w with granted := some c.grants })) with
          gateWaiters := queue
          grants := c.grants + 1
          history := ⟨w.generation, w.abandoned, c.current w.generation⟩ :: c.history }
    | _ => releaseLoop queue c

def releaseGate (c : Impl) (grant : Nat) : Impl :=
  releaseLoop c.gateWaiters { c with released := grant :: c.released }

/-- `abandonGate` of the call `i`, which leaves the client to the call. -/
def abandonGate (c : Impl) (i : Nat) (w : GateWaiter) (p : Party) : Impl :=
  let c := { c.setParty i p with gateWaiters := c.gateWaiters.erase i }
  match w.granted with
  | some grant => c.releaseGate grant
  | none => c

/-- What `reject` reports. -/
def rejection (c : Impl) (token : Nat) (wasCancelled : Bool) : NetworkError :=
  if !c.current token || wasCancelled then cancelled else requestTimedOut

/-- `acquireGate` up to where it returns or waits. -/
def acquireGate (c : Impl) (token deadline now : Nat) (wasCancelled : Bool) : Impl :=
  if !c.current token || deadline ≤ now || wasCancelled then
    { c with parties := c.parties ++ [.rejected (c.rejection token wasCancelled)] }
  else if !c.gateBusy then
    { c with
      gateBusy := true, parties := c.parties ++ [.leased c.grants], grants := c.grants + 1 }
  else
    { c with
      gateWaiters := c.gateWaiters ++ [c.parties.length]
      parties := c.parties ++ [.waiting { generation := token, deadline }] }

/-- `acquireGate` from where its timer wakes it. -/
def resume (c : Impl) (i : Nat) (w : GateWaiter) (error : Bool) (now : Nat)
    (wasCancelled : Bool) : Impl :=
  match w.granted with
  | none =>
    c.abandonGate i w
      (.rejected (if error || !c.current w.generation then cancelled else requestTimedOut))
  | some grant =>
    if !c.current w.generation || w.deadline ≤ now || wasCancelled then
      (c.setParty i (.rejected (c.rejection w.generation wasCancelled))).releaseGate grant
    else c.setParty i (.leased grant)

/-- The loop of `stopOnLoop`, at one waiter. -/
def stopWaiter (cutoff : Nat) (c : Impl) (i : Nat) : Impl :=
  match c.parties[i]? with
  | some (.waiting w) =>
    if w.generation ≤ cutoff then
      c.setParty i (.waiting (cancelTimer { w with abandoned := true }))
    else c
  | _ => c

/-- `stopOnLoop`, as far as the gate is concerned. -/
def stopOnLoop (c : Impl) (cutoff : Nat) : Impl := c.gateWaiters.foldl (stopWaiter cutoff) c

end Impl

/-- What happens to the gate, between the points where its coroutines wait. -/
inductive GateEvent where
  | acquireGate (token deadline now : Nat) (wasCancelled : Bool)
  /-- The timer of a waiter reaches the deadline. -/
  | expire (i now : Nat)
  /-- The caller is cancelled while it waits. -/
  | cancel (i : Nat)
  | resume (i now : Nat) (wasCancelled : Bool)
  /-- A lease goes out of scope, or the coroutine that waits or holds it is destroyed. -/
  | destroy (i : Nat)
  /-- A lease is moved into another coroutine. -/
  | move (i : Nat)
  /-- `scheduleStop`. -/
  | scheduleStop (terminal : Bool)
  /-- A posted `stopOnLoop` runs. -/
  | stopOnLoop

namespace Impl

/-- One event; none is where it cannot happen. -/
def step (c : Impl) : GateEvent → Option Impl
  | .acquireGate token deadline now wasCancelled =>
    some (c.acquireGate token deadline now wasCancelled)
  | .expire i now =>
    match c.parties[i]? with
    | some (.waiting w) =>
      if w.deadline ≤ now ∧ w.fired = none then
        some (c.setParty i (.waiting { w with fired := some false }))
      else none
    | _ => none
  | .cancel i =>
    match c.parties[i]? with
    | some (.waiting w) => some (c.setParty i (.waiting (cancelTimer w)))
    | _ => none
  | .resume i now wasCancelled =>
    match c.parties[i]? with
    | some (.waiting w) => w.fired.map fun error => c.resume i w error now wasCancelled
    | _ => none
  | .destroy i =>
    match c.parties[i]? with
    | some (.waiting w) => some (c.abandonGate i w .over)
    | some (.leased grant) => some ((c.setParty i .over).releaseGate grant)
    | _ => none
  | .move i =>
    match c.parties[i]? with
    | some (.leased grant) =>
      some { c.setParty i .over with parties := c.parties.set i .over ++ [.leased grant] }
    | _ => none
  | .scheduleStop terminal =>
    some { c with
      stopping := c.stopping || terminal
      generation := c.generation + 1
      stops := c.stops ++ [c.generation] }
  | .stopOnLoop =>
    match c.stops with
    | cutoff :: stops => some ({ c with stops }.stopOnLoop cutoff)
    | [] => none

def run (c : Impl) (events : List GateEvent) : Option Impl := events.foldlM step c

end Impl

end Hical.Client.Gate
