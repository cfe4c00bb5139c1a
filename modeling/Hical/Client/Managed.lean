import Hical.Client.IdlePool
import Hical.Client.Retry

namespace Hical.Client.Managed
open Hical.Http2

/-- `HttpClient::PoolCapacity`, as far as the pool reads it. -/
structure PoolCapacity where
  connected : Bool := false
  connecting : Bool := false
  protocol : HttpProtocol := .hHttp1
  settingsSeen : Bool := false
  accepting : Bool := false
  admitted : Nat := 0
  available : Nat := 0
  deriving DecidableEq

structure ManagedConnection where
  active : Nat := 0
  idleSince : Nat
  connectedAt : Option Nat := none
  capacity : PoolCapacity := {}
  /-- Not in the code: `close` was called on the client. -/
  closed : Bool := false
  deriving DecidableEq

/-- A reservation on a connection; the number is not in the code. -/
structure Reservation where
  connection : Nat
  number : Nat
  deriving DecidableEq

/-- `ManagedWaiter`; a waiter is in the list by the number of its request. -/
structure ManagedWaiter where
  /-- `ready.expiry()`. -/
  expiry : Nat
  queueDeadline : Nat
  connectDeadline : Nat := timePointMax
  connectTimeout : Int
  assigned : Option Reservation := none
  error : NetworkError := {}
  queued : Bool := true
  assignedConnected : Bool := false
  /-- Not in the code: its place among all that ever queued. -/
  ticket : Nat
  deriving DecidableEq

/-- Where a `doManagedRequest` is. -/
inductive Phase where
  /-- Suspended in `acquireManaged`. -/
  | waiting (waiter : ManagedWaiter)
  /-- With a `ManagedLease`, suspended in `requestUntil`. -/
  | leased (lease : Reservation)
  /-- Before its second attempt, which a `post` comes before. -/
  | between
  | done
  deriving DecidableEq

/-- A `doManagedRequest`, with the parts of its request that the pool reads. -/
structure Request where
  method : HttpMethod
  deadline : Nat
  connectTimeout : Int
  queueDeadline : Option Nat := none
  /-- Whether the next attempt, or the one under way, is the first. -/
  first : Bool := true
  phase : Phase
  deriving DecidableEq

/-- Not in the code: a caller that was given a connection, and who was still queued then. -/
structure Served where
  ticket : Option Nat
  left : List Nat
  deriving DecidableEq

structure ManagedOrigin where
  identity : PoolIdentity
  options : HttpClientOptions
  /-- Every connection that was made for the origin. -/
  entries : List ManagedConnection := []
  /-- `connections`, by their numbers among the entries. -/
  connections : List Nat := []
  waiters : List Nat := []
  scheduled : Bool := false
  requests : List Request := []
  /-- Not in the code: how many reservations were made, which of them became leases, and which
  were given back by a waiter and by a lease. -/
  reserved : Nat := 0
  leases : List Nat := []
  freed : List Nat := []
  returned : List Nat := []
  /-- Not in the code: how many callers queued, and who was served. -/
  tickets : Nat := 0
  served : List Served := []
  /-- Not in the code: an `active` went below zero. -/
  underflow : Bool := false

/-- What all the origins of a pool share. -/
structure Shared where
  stopping : Bool := false
  queuedRequests : Nat := 0
  peakQueuedRequests : Nat := 0

/-- An origin and what it shares with the others, which is what the scheduling of the pool works
on. -/
structure Sched extends ManagedOrigin, Shared

namespace Sched

def maxConnectionsPerOrigin (s : Sched) : Nat := s.options.http2.maxConnectionsPerOrigin.toNat

def maxQueuedRequestsPerOrigin (s : Sched) : Nat := s.options.http2.maxQueuedRequestsPerOrigin.toNat

def setRequest (s : Sched) (i : Nat) (r : Request) : Sched :=
  { s with requests := s.requests.set i r }

def setEntry (s : Sched) (c : Nat) (e : ManagedConnection) : Sched :=
  { s with entries := s.entries.set c e }

/-- The capacity that the client of a connection reports. -/
def poolCapacity (s : Sched) (c : Nat) : PoolCapacity :=
  (s.entries[c]?.map (·.capacity)).getD {}

/-- The loop of `selectManaged` over the connections: those that stay, whether one is starting,
and the first that has room. -/
def scan (entries : List ManagedConnection) : List Nat → Bool → List Nat × Bool × Option Nat
  | [], starting => ([], starting, none)
  | c :: rest, starting =>
    match entries[c]? with
    | none => scan entries rest starting
    | some entry =>
      let keep := fun starting =>
        let found := scan entries rest starting
        (c :: found.1, found.2)
      if !entry.capacity.connected then
        if entry.active = 0 && !entry.capacity.connecting then scan entries rest starting
        else keep true
      else if entry.capacity.protocol = .hHttp1 then
        if entry.active = 0 then (c :: rest, starting, some c) else keep starting
      else
        let starting := starting || !entry.capacity.settingsSeen
        -- `active` also counts what the session has not admitted yet.
        let reserved := entry.active - entry.capacity.admitted
        if entry.capacity.accepting && entry.capacity.available > reserved then
          (c :: rest, starting, some c)
        else keep starting

def selectManaged (s : Sched) (now : Nat) : Sched × Option Nat :=
  let found := scan s.entries s.connections false
  let s := { s with connections := found.1 }
  match found.2.2 with
  | some c => (s, some c)
  | none =>
    if found.2.1 || s.connections.length ≥ s.maxConnectionsPerOrigin then (s, none)
    else
      let c := s.entries.length
      ({ s with
          entries := s.entries ++ [{ idleSince := now }], connections := s.connections ++ [c] },
        some c)

/-- `++entry->active`, with the reservation it stands for. -/
def reserve (s : Sched) (c : Nat) : Sched × Reservation :=
  let s := match s.entries[c]? with
    | some e => s.setEntry c { e with active := e.active + 1 }
    | none => s
  ({ s with reserved := s.reserved + 1 }, ⟨c, s.reserved⟩)

def scheduleManaged (s : Sched) : Sched :=
  if s.scheduled || s.stopping then s else { s with scheduled := true }

/-- `client->close()`: the client is neither connected nor connecting from here on. -/
def closeClient (e : ManagedConnection) : ManagedConnection :=
  { e with capacity := {}, closed := true }

def releaseManaged (s : Sched) (c now : Nat) : Sched :=
  let s := match s.entries[c]? with
    | some e =>
      let s := { s with underflow := s.underflow || e.active = 0 }
      let e := { e with active := e.active - 1 }
      if e.active = 0 then
        let e := { e with idleSince := now }
        let capacity := e.capacity
        s.setEntry c
          (if capacity.connected && capacity.protocol = HttpProtocol.hHttp2 && capacity.settingsSeen &&
            !capacity.accepting then closeClient e else e)
      else s.setEntry c e
    | none => s
  s.scheduleManaged

/-- The timers of a waiter after `refreshConnectDeadline`; `now` is for a new connect deadline. -/
def refreshed (s : Sched) (w : ManagedWaiter) (now : Nat) : ManagedWaiter :=
  let ready := s.connections.filterMap fun c => s.entries[c]?.bind fun e =>
    if e.capacity.connected then e.connectedAt else none
  match ready with
  | connectedAt :: _ =>
    if w.connectDeadline = timePointMax then w
    else if connectedAt > w.connectDeadline then
      { w with error := { code := .hTimedOut, message := "HTTP/2 连接池建连等待子期限已过" } }
    else { w with connectDeadline := timePointMax, expiry := w.queueDeadline }
  | [] =>
    if w.connectDeadline = timePointMax ∧ 0 < w.connectTimeout then
      let connectDeadline := requestDeadline w.connectTimeout now
      { w with connectDeadline, expiry := min w.queueDeadline connectDeadline }
    else w

/-- `refreshConnectDeadline` of the waiter of the request `i`. -/
def refreshConnectDeadline (clock : Nat → Nat) (s : Sched) (i : Nat) : Sched :=
  match s.requests[i]? with
  | some r =>
    match r.phase with
    | .waiting w => s.setRequest i { r with phase := .waiting (s.refreshed w (clock i)) }
    | _ => s
  | none => s

def removeWaiter (s : Sched) (i : Nat) (r : Request) (w : ManagedWaiter) : Sched :=
  if w.queued then
    { s.setRequest i { r with phase := .waiting { w with queued := false } } with
      waiters := s.waiters.erase i, queuedRequests := s.queuedRequests - 1 }
  else s.setRequest i { r with phase := .waiting w }

def ticketOf (s : Sched) (i : Nat) : Option Nat :=
  match s.requests[i]? with
  | some r =>
    match r.phase with
    | .waiting w => some w.ticket
    | _ => none
  | none => none

/-- The loop of `drainManaged`; `clock` gives the reading for each waiter. -/
def drainLoop (clock : Nat → Nat) : List Nat → Sched → Sched
  | [], s => s
  | i :: rest, s =>
    match s.requests[i]? with
    | none => s
    | some r =>
      match r.phase with
      | .waiting w =>
        if s.stopping then
          drainLoop clock rest (s.removeWaiter i r { w with error := poolCancelled })
        else if !w.error.isError && w.expiry ≤ clock i then
          drainLoop clock rest (s.removeWaiter i r
            { w with error := { code := .hTimedOut, message := "HTTP/2 连接池排队期限已过" } })
        else if !w.error.isError then
          match s.selectManaged (clock i) with
          | (s, none) => s
          | (s, some c) =>
            let connected := (s.poolCapacity c).connected
            let taken := s.reserve c
            let s := { taken.1 with
              served := ⟨some w.ticket, (s.waiters.erase i).filterMap s.ticketOf⟩ :: s.served }
            drainLoop clock rest (s.removeWaiter i r
              { w with assigned := some taken.2, assignedConnected := connected })
        else drainLoop clock rest (s.removeWaiter i r w)
      | _ => s

def drainManaged (s : Sched) (clock : Nat → Nat) : Sched :=
  let s := s.waiters.foldl (refreshConnectDeadline clock) s
  drainLoop clock s.waiters s

/-- `origin->waiters.push_back`, with the waiter of the request `i`. -/
def enqueue (s : Sched) (i : Nat) (r : Request) (w : ManagedWaiter) : Sched :=
  { s with
    requests := s.requests.set i
      { r with phase := .waiting { w with queued := true, ticket := s.tickets } }
    waiters := s.waiters ++ [i]
    tickets := s.tickets + 1
    queuedRequests := s.queuedRequests + 1
    peakQueuedRequests := max s.peakQueuedRequests (s.queuedRequests + 1) }

/-- `acquireManaged` behind its `drainManaged`: a lease, a place in the list or neither. -/
def giveSlot (s : Sched) (i : Nat) (r : Request) (now : Nat) : Sched :=
  let selected := if s.waiters.isEmpty then s.selectManaged now else (s, none)
  let s := selected.1
  match selected.2 with
  | some c =>
    let taken := s.reserve c
    let s := { taken.1 with
      served := ⟨none, s.waiters.filterMap s.ticketOf⟩ :: s.served
      leases := taken.2.number :: s.leases }
    s.setRequest i { r with phase := .leased taken.2 }
  | none =>
    if s.waiters.length ≥ s.maxQueuedRequestsPerOrigin then s.setRequest i { r with phase := .done }
    else
      let queueDeadline := r.queueDeadline.getD (requestDeadline s.options.http2.queueTimeout now)
      let r := { r with queueDeadline := some queueDeadline }
      let limit := min r.deadline queueDeadline
      let connected := s.connections.any fun c => (s.poolCapacity c).connected
      let connectDeadline :=
        if !connected && 0 < r.connectTimeout then requestDeadline r.connectTimeout now
        else timePointMax
      s.enqueue i r
        { expiry := if !connected && 0 < r.connectTimeout then min limit connectDeadline else limit
          queueDeadline := limit, connectDeadline, connectTimeout := r.connectTimeout, ticket := 0 }

/-- `acquireManaged` of the request `i`, up to where it returns or waits. -/
def acquireManaged (s : Sched) (i : Nat) (r : Request) (clock : Nat → Nat) : Sched :=
  if s.stopping then s.setRequest i { r with phase := .done }
  else if r.deadline ≤ clock i then s.setRequest i { r with phase := .done }
  else (s.drainManaged clock).giveSlot i r (clock i)

def requeueManagedGrant (s : Sched) (i : Nat) (r : Request) (w : ManagedWaiter)
    (previous : Reservation) (now : Nat) : Sched × Option NetworkError :=
  let s := { s with freed := previous.number :: s.freed }
  let w := { w with assigned := none, assignedConnected := false }
  let s := (s.setRequest i { r with phase := .waiting w }).releaseManaged previous.connection now
  if s.waiters.length ≥ s.maxQueuedRequestsPerOrigin then
    (s, some { code := .hResourceLimitExceeded, message := "HTTP/2 连接池有限等待队列已满" })
  else
    let connectDeadline := if w.connectDeadline = timePointMax then
      requestDeadline w.connectTimeout now else w.connectDeadline
    (s.enqueue i r { w with connectDeadline, expiry := min w.queueDeadline connectDeadline }, none)

/-- The end of `acquireManaged` without a lease: what `Registration` undoes. -/
def refuse (s : Sched) (i : Nat) (r : Request) (w : ManagedWaiter) (now : Nat) : Sched :=
  let s := s.removeWaiter i r w
  let s := s.setRequest i { r with phase := .done }
  let s := match w.assigned with
    | some a => { s with freed := a.number :: s.freed }.releaseManaged a.connection now
    | none => s
  s.scheduleManaged

/-- The end of `acquireManaged` with the lease of what the waiter was assigned. -/
def claim (s : Sched) (i : Nat) (r : Request) (w : ManagedWaiter) (a : Reservation) : Sched :=
  let s := s.removeWaiter i r { w with assigned := none }
  let s := { s with leases := a.number :: s.leases }
  (s.setRequest i { r with phase := .leased a }).scheduleManaged

/-- `acquireManaged` where its timer wakes it, by an abort or not; the clock is read at `now` in the
loop and at `later` behind it. -/
def resume (s : Sched) (i : Nat) (r : Request) (w : ManagedWaiter) (aborted cancelled : Bool)
    (now later : Nat) : Sched :=
  let w := s.refreshed w now
  let s := s.setRequest i { r with phase := .waiting w }
  if s.stopping || cancelled || w.error.isError || w.expiry ≤ now then s.refuse i r w now
  else
    match w.assigned with
    | some a =>
      if w.assignedConnected && !(s.poolCapacity a.connection).connected then
        match s.requeueManagedGrant i r w a now with
        | (s, none) => s
        | (s, some error) =>
          s.refuse i r { w with assigned := none, assignedConnected := false, error } now
      else if w.expiry ≤ later then s.refuse i r w later
      else s.claim i r w a
    | none => if aborted then s else s.refuse i r w now

/-- The `ManagedLease` of a request goes out of scope, with the phase it leaves the request in. -/
def dropLease (s : Sched) (i : Nat) (r : Request) (a : Reservation) (phase : Phase) (now : Nat) :
    Sched :=
  ({ s with returned := a.number :: s.returned }.setRequest i { r with phase }).releaseManaged
    a.connection now

/-- The callback that `selectManaged` gives to a client. -/
def capacityChanged (s : Sched) (c now : Nat) : Sched :=
  match s.entries[c]? with
  | some e =>
    (s.setEntry c
      (if !e.capacity.connected then { e with connectedAt := none }
        else if e.connectedAt = none then { e with connectedAt := some now } else e)).scheduleManaged
  | none => s

/-- `sweepManaged` on the connections of the origin. -/
def sweepConnections (s : Sched) (isAlive : Nat → Bool) (idleTimeout now : Nat) : Sched :=
  let drops := fun c => match s.entries[c]? with
    | some e => e.active = 0 && s.waiters.isEmpty &&
        !(isAlive c && now - e.idleSince < idleTimeout)
    | none => false
  { s with
    entries := s.entries.mapIdx fun c e =>
      if s.connections.contains c && drops c then closeClient e else e
    connections := s.connections.filter fun c => !drops c }

/-- `stopManaged` on the origin. -/
def stop (s : Sched) (clock : Nat → Nat) : Sched :=
  let s := { s with entries := s.entries.mapIdx fun c e =>
    if s.connections.contains c then closeClient e else e }
  s.drainManaged clock

end Sched

end Hical.Client.Managed
