import Mathlib.Data.List.AList
import Hical.Client.Options

namespace Hical.Client
open Hical.Http2

structure PoolIdentity where
  host : Bytes
  port : UInt16
  tlsContext : Option Nat
  sni : Bytes
  verifyPeer : Bool
  mode : HttpProtocolMode
  http2 : Http2Options
  deriving DecidableEq

/-- The constructor of `PoolIdentity`. -/
def PoolIdentity.of (target : Bytes) (targetPort : UInt16) (options : HttpClientOptions) :
    PoolIdentity where
  host := target
  port := targetPort
  tlsContext := options.tlsContext
  sni := if options.sniHost.isEmpty then target else options.sniHost
  verifyPeer := options.verifyPeer
  mode := options.protocolMode
  http2 := if options.protocolMode = .hHttp1Only then {} else options.http2

/-- An `HttpClient` object. It is counted by its place among all that were ever made, since its
address may be used again once it is destroyed. -/
structure HttpClient where
  address : Nat
  /-- Not in the code: what the client was made with. -/
  identity : PoolIdentity
  live : Bool := true

structure IdleConn where
  client : Nat
  idleSince : Nat

structure Checkout where
  identity : PoolIdentity
  «instance» : Nat
  managed : Bool

/-- What `hasPendingRequests` and `isAlive` answer for a client while the pool works. -/
structure Look where
  hasPendingRequests : Bool
  isAlive : Bool

/-- Not in the code: a client that was given out, and for what. -/
structure Lent where
  client : Nat
  identity : PoolIdentity
  reused : Bool
  pending : Bool

/-- Not in the code: what became of the clients. -/
inductive Note where
  | out (client : Nat)
  | back (client : Nat)
  | cleared
  deriving DecidableEq

/-- The half of `HttpClientPool::Impl` that lends its clients one by one. -/
structure IdlePool where
  idleTimeout : Nat
  maxIdlePerBucket : Nat
  stopping : Bool := false
  buckets : AList fun _ : PoolIdentity => List IdleConn := ∅
  checkedOut : AList fun _ : Nat => Checkout := ∅
  clients : List HttpClient := []
  lent : List Lent := []
  notes : List Note := []

namespace IdlePool

/-- The idle connections under a key; a bucket that is not there holds none. -/
def queue (p : IdlePool) (key : PoolIdentity) : List IdleConn := (p.buckets.lookup key).getD []

def setQueue (p : IdlePool) (key : PoolIdentity) (queue : List IdleConn) : IdlePool :=
  { p with buckets := p.buckets.insert key queue }

/-- `buckets.erase`. -/
def eraseQueue (p : IdlePool) (key : PoolIdentity) : IdlePool :=
  { p with buckets := p.buckets.erase key }

def address (p : IdlePool) (i : Nat) : Nat := (p.clients[i]?.map (·.address)).getD 0

def isLive (p : IdlePool) (i : Nat) : Bool := (p.clients[i]?.map (·.live)).getD false

/-- `checkedOut.insert_or_assign`. -/
def track (p : IdlePool) (i : Nat) (key : PoolIdentity) (managed : Bool) : IdlePool :=
  { p with
    checkedOut := p.checkedOut.insert (p.address i) ⟨key, i, managed⟩
    notes := .out i :: p.notes }

def lend (p : IdlePool) (i : Nat) (key : PoolIdentity) (reused pending : Bool) : IdlePool :=
  { p with lent := ⟨i, key, reused, pending⟩ :: p.lent }

/-- The loop of `acquireFrom` over the bucket: the client that is lent, if one is left alive. -/
def scan (look : Nat → Look) (key : PoolIdentity) (managed : Bool) :
    List IdleConn → IdlePool → IdlePool × Bool
  | [], p => (p.eraseQueue key, false)
  | conn :: queue, p =>
    let p := p.setQueue key queue
    if (look conn.client).hasPendingRequests then
      scan look key managed queue (p.track conn.client key false)
    else if (look conn.client).isAlive then
      let p := p.track conn.client key managed
      let p := if queue.isEmpty then p.eraseQueue key else p
      (p.lend conn.client key true (look conn.client).hasPendingRequests, true)
    else scan look key managed queue p

/-- The look into the bucket that `acquireFrom` starts with. -/
def reuse (p : IdlePool) (look : Nat → Look) (key : PoolIdentity) (managed : Bool) :
    IdlePool × Bool :=
  match p.buckets.lookup key with
  | some queue => scan look key managed queue p
  | none => (p, false)

/-- Whether a client lies in a bucket, which keeps it from being destroyed. -/
def isIdle (p : IdlePool) (i : Nat) : Bool :=
  p.buckets.keys.any fun key => (p.queue key).any (·.client == i)

/-- The last reference to a client goes away. -/
def destroy (p : IdlePool) (i : Nat) : Option IdlePool :=
  match p.clients[i]? with
  | some c =>
    if c.live && !p.isIdle i then some { p with clients := p.clients.set i { c with live := false } }
    else none
  | none => none

def make (p : IdlePool) (address : Nat) (identity : PoolIdentity) : Option IdlePool :=
  if p.clients.any fun c => c.live && c.address == address then none
  else some { p with clients := p.clients ++ [{ address, identity }] }

/-- `acquireFrom`; `freed` are the dead clients that it drops for good, and `address` is where a
new client is put. -/
def acquireFrom (p : IdlePool) (host : Bytes) (port : UInt16) (options : HttpClientOptions)
    (managed : Bool) (look : Nat → Look) (freed : List Nat) (address : Nat) : Option IdlePool :=
  if p.stopping then some p
  else
    let key := PoolIdentity.of host port options
    let found := p.reuse look key managed
    if found.2 then some found.1
    else do
      let p ← freed.foldlM destroy found.1
      let i := p.clients.length
      let p ← p.make address key
      return (p.track i key managed).lend i key false false

/-- `while (queue.size() > maxIdlePerBucket) queue.pop_front()`. -/
def evict (maxIdlePerBucket : Nat) : List IdleConn → List IdleConn
  | [] => []
  | conn :: queue =>
    if (conn :: queue).length > maxIdlePerBucket then evict maxIdlePerBucket queue
    else conn :: queue

def untrack (p : IdlePool) (i : Nat) : IdlePool :=
  { p with checkedOut := p.checkedOut.erase (p.address i) }

def releaseTo (p : IdlePool) (i : Nat) (look : Look) (now : Nat) : IdlePool :=
  match p.checkedOut.lookup (p.address i) with
  | none => p
  | some tracked =>
    -- The instance of a ticket for another object at this address is gone, and does not lock.
    if tracked.instance ≠ i then p.untrack i
    else if look.hasPendingRequests then p
    else
      let p := { p.untrack i with notes := .back i :: p.notes }
      if !look.isAlive || p.stopping then p
      else
        p.setQueue tracked.identity
          (evict p.maxIdlePerBucket (p.queue tracked.identity ++ [⟨i, now⟩]))

/-- The loop of `sweep` over one bucket. -/
def sweepQueue (look : Nat → Look) (now : Nat) (key : PoolIdentity) :
    List IdleConn → IdlePool → IdlePool
  | [], p => p.eraseQueue key
  | front :: queue, p =>
    if (look front.client).hasPendingRequests then
      sweepQueue look now key queue ((p.setQueue key queue).track front.client key false)
    else if (look front.client).isAlive && now - front.idleSince < p.idleTimeout then p
    else sweepQueue look now key queue (p.setQueue key queue)

/-- The loop of `sweep` over `checkedOut`, at one entry. -/
def expire (p : IdlePool) (address : Nat) : IdlePool :=
  match p.checkedOut.lookup address with
  | some tracked =>
    if p.isLive tracked.instance then p
    else { p with checkedOut := p.checkedOut.erase address }
  | none => p

def sweep (p : IdlePool) (look : Nat → Look) (now : Nat) : IdlePool :=
  let p := p.checkedOut.keys.foldl expire p
  p.buckets.keys.foldl (fun p key => sweepQueue look now key (p.queue key) p) p

def idleCount (p : IdlePool) : Nat := (p.buckets.keys.map fun key => (p.queue key).length).sum

/-- What `scheduleStop` posts, without the closing of the clients. -/
def stopped (p : IdlePool) : IdlePool :=
  { p with buckets := ∅, checkedOut := ∅, notes := .cleared :: p.notes }

end IdlePool

/-- What happens to the pool, one call after the other on its event loop. -/
inductive PoolEvent where
  /-- A client is made outside the pool. -/
  | foreign (address : Nat) (identity : PoolIdentity)
  | destroy (i : Nat)
  | acquire (host : Bytes) (port : UInt16) (options : HttpClientOptions) (managed : Bool)
      (look : Nat → Look) (freed : List Nat) (address : Nat)
  /-- Some holder of a reference gives the client to the pool, whether it was lent or not. -/
  | release (i : Nat) (look : Look) (now : Nat)
  | sweep (look : Nat → Look) (now : Nat)
  | shutdown
  | stopped

namespace IdlePool

/-- One event; none is where it cannot happen. -/
def step (p : IdlePool) : PoolEvent → Option IdlePool
  | .foreign address identity => p.make address identity
  | .destroy i => p.destroy i
  | .acquire host port options managed look freed address =>
    p.acquireFrom host port options managed look freed address
  | .release i look now => if p.isLive i then some (p.releaseTo i look now) else none
  | .sweep look now => if p.stopping then none else some (p.sweep look now)
  | .shutdown => some { p with stopping := true }
  | .stopped => if p.stopping then some p.stopped else none

def run (p : IdlePool) (events : List PoolEvent) : Option IdlePool := events.foldlM step p

end IdlePool

end Hical.Client
