import Hical.Client.Managed

namespace Hical.Client.Managed
open Hical.Http2

/-- The half of `HttpClientPool::Impl` that shares its connections. -/
structure ManagedPool where
  idleTimeout : Nat
  shared : Shared := {}
  /-- Every origin that was made; a request keeps its own from being destroyed. -/
  origins : List ManagedOrigin := []
  managed : AList fun _ : PoolIdentity => Nat := ∅
  /-- Not in the code: what `scheduleStop` posts has run. -/
  cleaned : Bool := false

/-- What happens on the event loop to a request that is suspended, to a client or to what was posted,
all of one origin. -/
inductive OriginEvent where
  /-- The timer of a waiter completes. -/
  | resume (i : Nat) (aborted cancelled : Bool) (now later : Nat)
  /-- `requestUntil` ends. -/
  | finish (i : Nat) (outcome : Except SystemError HttpClientResult) (reused : Bool) (now : Nat)
  /-- The `post` before a second attempt completes. -/
  | again (i : Nat) (cancelled : Bool) (now : Nat) (clock : Nat → Nat)
  /-- An exception leaves the coroutine of a request, or it is destroyed where it is suspended. -/
  | unwind (i now : Nat)
  | client (c : Nat) (capacity : PoolCapacity)
  /-- A client calls back that its capacity changed. -/
  | notify (c now : Nat)
  /-- What `scheduleManaged` posts runs. -/
  | drain (clock : Nat → Nat)

/-- What happens on the event loop of the pool. -/
inductive ManagedEvent where
  | request (host : Bytes) (port : UInt16) (method : HttpMethod) (options : HttpClientOptions)
      (deadline : Nat) (cancelled : Bool) (now : Nat) (clock : Nat → Nat)
  | origin (o : Nat) (e : OriginEvent)
  | sweep (isAlive : Nat → Nat → Bool) (now : Nat)
  | shutdown
  /-- What `scheduleStop` posts runs. -/
  | stopped (clock : Nat → Nat → Nat)

namespace Sched

/-- The guards of `doManagedRequest` and its `acquireManaged`, in one attempt of the request `i`. -/
def attempt (s : Sched) (i : Nat) (r : Request) (cancelled : Bool) (now : Nat) (clock : Nat → Nat) :
    Sched :=
  if s.stopping || cancelled then s.setRequest i { r with phase := .done }
  else if r.deadline ≤ now then s.setRequest i { r with phase := .done }
  else s.acquireManaged i r clock

def join (s : Sched) (r : Request) (cancelled : Bool) (now : Nat) (clock : Nat → Nat) : Sched :=
  { s with requests := s.requests ++ [r] }.attempt s.requests.length r cancelled now clock

/-- What `doManagedRequest` does once `requestUntil` ends, where its lease goes out of scope. -/
def finish (s : Sched) (i : Nat) (r : Request) (a : Reservation)
    (outcome : Except SystemError HttpClientResult) (reused : Bool) (now : Nat) : Sched :=
  match outcome with
  | .error _ => s.dropLease i r a .done now
  | .ok result =>
    if s.stopping then s.dropLease i r a .done now
    else if !r.first || !canRetry result r.method reused true then s.dropLease i r a .done now
    else s.dropLease i { r with first := false } a .between now

def unwind (s : Sched) (i : Nat) (r : Request) (now : Nat) : Sched :=
  match r.phase with
  | .waiting w => s.refuse i r w now
  | .leased a => s.dropLease i r a .done now
  | .between => s.setRequest i { r with phase := .done }
  | .done => s

/-- What the request `i` does, if there is one. -/
def onRequest (s : Sched) (i : Nat) (f : Request → Sched) : Sched :=
  match s.requests[i]? with
  | some r => f r
  | none => s

def step (s : Sched) : OriginEvent → Sched
  | .resume i aborted cancelled now later => s.onRequest i fun r =>
    match r.phase with
    | .waiting w => s.resume i r w aborted cancelled now later
    | _ => s
  | .finish i outcome reused now => s.onRequest i fun r =>
    match r.phase with
    | .leased a => s.finish i r a outcome reused now
    | _ => s
  | .again i cancelled now clock => s.onRequest i fun r =>
    match r.phase with
    | .between => s.attempt i r cancelled now clock
    | _ => s
  | .unwind i now => s.onRequest i fun r => s.unwind i r now
  | .client c capacity =>
    match s.entries[c]? with
    | some e => s.setEntry c { e with capacity }
    | none => s
  | .notify c now => if s.connections.contains c then s.capacityChanged c now else s
  | .drain clock => if s.scheduled then { s with scheduled := false }.drainManaged clock else s

end Sched

namespace ManagedPool

def onOrigin (p : ManagedPool) (o : Nat) (f : Sched → Sched) : ManagedPool :=
  match p.origins[o]? with
  | some origin =>
    let s := f ⟨origin, p.shared⟩
    { p with shared := s.toShared, origins := p.origins.set o s.toManagedOrigin }
  | none => p

def managedOrigin (p : ManagedPool) (key : PoolIdentity) (options : HttpClientOptions) :
    ManagedPool × Nat :=
  match p.managed.lookup key with
  | some o => (p, o)
  | none =>
    let o := p.origins.length
    ({ p with
        origins := p.origins ++ [{ identity := key, options }]
        managed := p.managed.insert key o }, o)

/-- `doRequest` up to where the managed request first waits. -/
def request (p : ManagedPool) (host : Bytes) (port : UInt16) (method : HttpMethod)
    (options : HttpClientOptions) (deadline : Nat) (cancelled : Bool) (now : Nat)
    (clock : Nat → Nat) : ManagedPool :=
  if options.protocolMode = .hHttp1Only then p
  else if options.tlsContext = none then p
  else if options.http2.validationError ≠ none then p
  else
    let found := p.managedOrigin (.of host port options) options
    found.1.onOrigin found.2 fun s => s.join
      { method, deadline, connectTimeout := options.connectTimeout, phase := .between }
      cancelled now clock

/-- One round of the loop of `sweepManaged`. -/
def sweepOrigin (isAlive : Nat → Nat → Bool) (now : Nat) (p : ManagedPool) (key : PoolIdentity) :
    ManagedPool :=
  match p.managed.lookup key with
  | some o =>
    let p := p.onOrigin o fun s => s.sweepConnections (isAlive o) p.idleTimeout now
    match p.origins[o]? with
    | some origin =>
      if origin.connections.isEmpty && origin.waiters.isEmpty then
        { p with managed := p.managed.erase key }
      else p
    | none => p
  | none => p

def sweepManaged (p : ManagedPool) (isAlive : Nat → Nat → Bool) (now : Nat) : ManagedPool :=
  p.managed.keys.foldl (sweepOrigin isAlive now) p

/-- One round of the loop of `stopManaged`. -/
def stopOrigin (clock : Nat → Nat → Nat) (p : ManagedPool) (key : PoolIdentity) : ManagedPool :=
  match p.managed.lookup key with
  | some o => p.onOrigin o fun s => s.stop (clock o)
  | none => p

def stopManaged (p : ManagedPool) (clock : Nat → Nat → Nat) : ManagedPool :=
  p.managed.keys.foldl (stopOrigin clock) p

def step (p : ManagedPool) : ManagedEvent → ManagedPool
  | .request host port method options deadline cancelled now clock =>
    p.request host port method options deadline cancelled now clock
  | .origin o e => p.onOrigin o fun s => s.step e
  | .sweep isAlive now => p.sweepManaged isAlive now
  | .shutdown => { p with shared := { p.shared with stopping := true } }
  | .stopped clock =>
    if p.shared.stopping then { p.stopManaged clock with cleaned := true } else p

def run (p : ManagedPool) (events : List ManagedEvent) : ManagedPool := events.foldl step p

end ManagedPool

end Hical.Client.Managed
