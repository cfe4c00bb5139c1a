import Hical.Http2.Options
import Hical.Lib.Ledger
import Mathlib.Logic.Function.Basic

namespace Hical.Http2

inductive Resource where
  | hProtocolStream | hApplicationTask | hReceiveBytes | hSendBytes
  deriving DecidableEq, Repr

def Resource.isSlot : Resource → Bool
  | .hProtocolStream => true
  | .hApplicationTask => true
  | .hReceiveBytes => false
  | .hSendBytes => false

inductive Role where
  | hClient | hServer
  deriving DecidableEq, Repr

/-- `Http2ServiceBudget::State`. -/
structure ServiceState where
  limit : Nat
  used : Nat := 0
  deriving DecidableEq, Repr

/-- `Http2Budget::State`; `service` is the place of the shared state of the service. -/
structure BudgetState where
  used : Resource → Nat := fun _ => 0
  limits : Resource → Nat := fun _ => 0
  streamReceiveLimit : Nat := 0
  service : Option Nat := none

/-- The shared states of services and connections, each at its place. -/
structure Budgets where
  services : Nat → ServiceState := fun _ => ⟨0, 0⟩
  serviceCount : Nat := 0
  states : Nat → BudgetState := fun _ => {}
  stateCount : Nat := 0
  /-- Not in the code: a difference of `size_t` went below zero. -/
  underflow : Bool := false

/-- `Http2Budget::Lease`; `state` is the place of the shared state, if the lease holds any. -/
structure Lease where
  state : Option Nat := none
  resource : Resource := .hProtocolStream
  amount : Nat := 0
  limit : Nat := 0
  deriving DecidableEq, Repr

/-- `Http2Budget`, the view that a connection has of its shared state. -/
structure Http2Budget where
  role : Role
  state : Nat
  deriving DecidableEq, Repr

def Lease.held (l : Lease) : Bool := l.state.isSome

/-- `Lease(Lease&&)`: the lease that is made, and what is left of the source. -/
def Lease.moved (l : Lease) : Lease × Lease := (l, { l with state := none, amount := 0 })

namespace Budgets

/-- `x - y` on `size_t`. -/
@[irreducible] def minus (b : Budgets) (x y : Nat) : Budgets × Nat :=
  ({ b with underflow := b.underflow || decide (x < y) }, (x + 2 ^ 64 - y) % 2 ^ 64)

def setUsed (b : Budgets) (c : Nat) (r : Resource) (n : Nat) : Budgets :=
  { b with
    states := Function.update b.states c
      { b.states c with used := Function.update (b.states c).used r n } }

def setServiceUsed (b : Budgets) (k : Nat) (n : Nat) : Budgets :=
  { b with services := Function.update b.services k { b.services k with used := n } }

/-- `Http2ServiceBudget::State::acquire`. -/
def acquireService (b : Budgets) (k : Nat) : Budgets × Bool :=
  let s := b.services k
  if s.used < s.limit then (b.setServiceUsed k ((s.used + 1) % 2 ^ 64), true) else (b, false)

/-- `Http2ServiceBudget::State::release`. -/
def releaseService (b : Budgets) (k : Nat) : Budgets :=
  let (b, n) := b.minus (b.services k).used 1
  b.setServiceUsed k n

/-- The part of `acquire` that asks the service. -/
def takeSlot (b : Budgets) (c : Nat) (r : Resource) : Budgets × Bool :=
  match r, (b.states c).service with
  | .hApplicationTask, some k => b.acquireService k
  | _, _ => (b, true)

/-- `Http2Budget::acquire`. -/
def acquire (b : Budgets) (c : Nat) (r : Resource) (amount limit : Nat) : Budgets × Lease :=
  if amount > limit then (b, {})
  else
    let (b, room) := b.minus ((b.states c).limits r) ((b.states c).used r)
    if amount > room then (b, {})
    else
      let (b, admitted) := b.takeSlot c r
      if admitted then
        (b.setUsed c r (((b.states c).used r + amount) % 2 ^ 64), ⟨some c, r, amount, limit⟩)
      else (b, {})

/-- `Lease::tryResize`. -/
def tryResize (b : Budgets) (l : Lease) (bytes : Nat) : Budgets × Lease × Bool :=
  match l.state with
  | none => (b, l, false)
  | some c =>
    if l.resource.isSlot ∨ bytes > l.limit then (b, l, false)
    else
      let used := (b.states c).used l.resource
      if bytes > l.amount then
        let (b, growth) := b.minus bytes l.amount
        let (b, room) := b.minus ((b.states c).limits l.resource) used
        if growth > room then (b, l, false)
        else
          (b.setUsed c l.resource ((used + growth) % 2 ^ 64), { l with amount := bytes }, true)
      else
        let (b, shrink) := b.minus l.amount bytes
        let (b, rest) := b.minus used shrink
        (b.setUsed c l.resource rest, { l with amount := bytes }, true)

/-- `Lease::reset`. -/
def reset (b : Budgets) (l : Lease) : Budgets × Lease :=
  match l.state with
  | none => (b, l)
  | some c =>
    let (b, rest) := b.minus ((b.states c).used l.resource) l.amount
    let b := b.setUsed c l.resource rest
    let b := match l.resource, (b.states c).service with
      | .hApplicationTask, some k => b.releaseService k
      | _, _ => b
    (b, { l with state := none, amount := 0 })

/-- `Lease::operator=(Lease&&)` on two leases: the target and what is left of the source. -/
def assign (b : Budgets) (target source : Lease) : Budgets × Lease × Lease :=
  let (b, _) := b.reset target
  (b, source.moved)

/-- `Http2ServiceBudget(maxTasks)`. -/
def newService (b : Budgets) (maxTasks : UInt64) : Except String (Budgets × Nat) :=
  if maxTasks = 0 then throw "HTTP/2 服务应用任务上限必须为正"
  else
    pure ({ b with
      services := Function.update b.services b.serviceCount ⟨maxTasks.toNat, 0⟩
      serviceCount := b.serviceCount + 1 }, b.serviceCount)

def limitsOf (role : Role) (o : Http2Options) : Resource → Nat
  | .hProtocolStream => o.maxConcurrentStreams.toNat
  | .hApplicationTask => o.maxApplicationTasks.toNat
  | .hReceiveBytes =>
    match role with
    | .hServer => o.maxConnectionReceiveBytes.toNat
    | .hClient => o.maxClientConnectionReceiveBytes.toNat
  | .hSendBytes => o.maxConnectionSendBytes.toNat

/-- `Http2Budget(role, options, service)`. -/
def newBudget (b : Budgets) (role : Role) (options : Http2Options) (service : Option Nat) :
    Except String (Budgets × Http2Budget) := do
  options.validate
  if role = .hServer ∧ service = none then
    throw "HTTP/2 预算角色无效或服务端缺少共享服务预算"
  let state : BudgetState := {
    limits := limitsOf role options
    streamReceiveLimit := match role with
      | .hServer => options.maxBodyBytes.toNat
      | .hClient => options.maxResponseBytes.toNat
    service := service }
  pure ({ b with
    states := Function.update b.states b.stateCount state
    stateCount := b.stateCount + 1 }, ⟨role, b.stateCount⟩)

end Budgets

namespace Http2Budget

def tryAcquireProtocolStream (h : Http2Budget) (b : Budgets) (peerLimit : UInt32) :
    Budgets × Lease :=
  if h.role = .hClient ∧ (b.states h.state).used .hProtocolStream ≥ peerLimit.toNat then (b, {})
  else b.acquire h.state .hProtocolStream 1 1

def tryAcquireApplicationTask (h : Http2Budget) (b : Budgets) : Budgets × Lease :=
  b.acquire h.state .hApplicationTask 1 1

def tryAcquireReceive (h : Http2Budget) (b : Budgets) (bytes : Nat) : Budgets × Lease :=
  b.acquire h.state .hReceiveBytes bytes (b.states h.state).streamReceiveLimit

def tryAcquireSend (h : Http2Budget) (b : Budgets) (bytes : Nat) : Budgets × Lease :=
  b.acquire h.state .hSendBytes bytes ((b.states h.state).limits .hSendBytes)

end Http2Budget

end Hical.Http2
