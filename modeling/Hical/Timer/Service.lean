import Mathlib.Data.Finset.Card
import Mathlib.Data.List.Sort

namespace Hical.Timer

def kFirstTimerId : Nat := 1

def kCancelledSlack : Nat := 256

def kInvalidId : Nat := 0

/-- `TimerServiceCore::Node`; of the callback only whether there is one. -/
structure Node where
  deadline : Int
  id : Nat
  callback : Bool
  deriving DecidableEq

def later (lhs rhs : Node) : Bool :=
  if lhs.deadline ≠ rhs.deadline then lhs.deadline > rhs.deadline else lhs.id > rhs.id

/-- Not in the code: what the service did and was asked for. -/
inductive Happened where
  | scheduled (node : Node)
  /-- A call of `cancel` for an id that was handed out. -/
  | cancelled (id : Nat)
  | fired
  | ran (node : Node) (now : Int)
  | shutdown
  deriving DecidableEq

/-- `TimerServiceCore`. Of the vector that `push_heap` and `pop_heap` keep, the front and the
elements count, so that it is a list in the order of `Later`. -/
structure TimerServiceCore where
  heap : List Node := []
  cancelled : Finset Nat := ∅
  armedDeadline : Option Int := none
  nextId : Nat := kFirstTimerId
  inFireDue : Bool := false
  stopped : Bool := false
  /-- `timer.expiry()`. -/
  expiry : Int := 0
  /-- The timer has an `async_wait` that it did not complete yet. -/
  waiting : Bool := false
  /-- The handlers that were completed without an error and wait for the executor. -/
  ready : Nat := 0
  /-- Not in the code: what happened, the latest first. -/
  past : List Happened := []

namespace TimerServiceCore

def note (c : TimerServiceCore) (h : Happened) : TimerServiceCore := { c with past := h :: c.past }

def push (c : TimerServiceCore) (node : Node) : TimerServiceCore :=
  { c with heap := c.heap.orderedInsert (fun a b => later b a = true) node }

/-- `rearm`; `expires_at` aborts a wait that is not completed. -/
def rearm (c : TimerServiceCore) : TimerServiceCore :=
  match c.heap with
  | [] => { c with armedDeadline := none }
  | top :: _ =>
    if c.stopped then { c with armedDeadline := none }
    else
      match c.armedDeadline with
      | some armed =>
        if armed ≤ top.deadline then c
        else
          { c with armedDeadline := some top.deadline, expiry := top.deadline, waiting := true }
      | none => { c with armedDeadline := some top.deadline, expiry := top.deadline, waiting := true }

def compactCancelled (c : TimerServiceCore) : TimerServiceCore :=
  if c.inFireDue then c
  else if c.cancelled.card ≤ c.heap.length + kCancelledSlack then c
  else { c with cancelled := ((c.heap.map (·.id)).filter (· ∈ c.cancelled)).toFinset }

/-- `TimerService::schedule`, with the id it returns. -/
def schedule (c : TimerServiceCore) (deadline : Int) (callback : Bool) : TimerServiceCore × Nat :=
  if c.stopped then (c, kInvalidId)
  else
    let id := c.nextId
    let node : Node := ⟨deadline, id, callback⟩
    (({ c with nextId := id + 1 }.note (.scheduled node)).push node |>.rearm, id)

/-- `TimerService::scheduleAfter` at the clock reading `now`. -/
def scheduleAfter (c : TimerServiceCore) (delay now : Int) (callback : Bool) :
    TimerServiceCore × Nat :=
  c.schedule (now + if delay < 0 then 0 else delay) callback

/-- `TimerService::cancel`. -/
def cancel (c : TimerServiceCore) (id : Nat) : TimerServiceCore × Bool :=
  if c.stopped || id = kInvalidId || id ≥ c.nextId then (c, false)
  else
    let c := c.note (.cancelled id)
    if id ∈ c.cancelled then (c, false)
    else (compactCancelled { c with cancelled := insert id c.cancelled }, true)

/-- `TimerService::shutdown`. -/
def shutdown (c : TimerServiceCore) : TimerServiceCore :=
  if c.stopped then c
  else
    { c.note .shutdown with
      stopped := true, armedDeadline := none, cancelled := ∅, heap := [], waiting := false }

end TimerServiceCore

/-- A call of the service, from a callback or from elsewhere on its thread. -/
inductive Call where
  | schedule (deadline : Int) (callback : Bool)
  | scheduleAfter (delay now : Int) (callback : Bool)
  | cancel (id : Nat)
  | shutdown

namespace TimerServiceCore

def call (c : TimerServiceCore) : Call → TimerServiceCore
  | .schedule deadline callback => (c.schedule deadline callback).1
  | .scheduleAfter delay now callback => (c.scheduleAfter delay now callback).1
  | .cancel id => (c.cancel id).1
  | .shutdown => c.shutdown

/-- The loop of `fireDue` over the nodes it took out; `calls` are what each callback calls. -/
def runDue (calls : Nat → List Call) (now : Int) :
    List Node → TimerServiceCore → TimerServiceCore
  | [], c => c
  | node :: due, c =>
    if c.stopped then c
    else if node.id ∈ c.cancelled then
      runDue calls now due { c with cancelled := c.cancelled.erase node.id }
    else if node.callback then
      runDue calls now due ((calls node.id).foldl call (c.note (.ran node now)))
    else runDue calls now due c

def fireDue (c : TimerServiceCore) (calls : Nat → List Call) (now : Int) : TimerServiceCore :=
  let c := { c with armedDeadline := none }
  if c.stopped then c
  else
    let c := { c.note .fired with inFireDue := true }
    let due := c.heap.takeWhile (·.deadline ≤ now)
    let c := { c with heap := c.heap.dropWhile (·.deadline ≤ now) }
    { (runDue calls now due c).rearm with inFireDue := false }

end TimerServiceCore

/-- What happens to a service: calls, the timer reaching its expiry, and the handler of a wait that
ended well. -/
inductive TimerEvent where
  | call (call : Call)
  | expire (now : Int)
  | handle (calls : Nat → List Call) (now : Int)

/-- A service with the last reading of its clock. -/
structure TimerService where
  core : TimerServiceCore := {}
  clock : Int := 0

/-- One event; none is where it cannot happen. -/
def TimerService.step (s : TimerService) : TimerEvent → Option TimerService
  | .call call => some { s with core := s.core.call call }
  | .expire now =>
    if s.core.waiting ∧ s.core.expiry ≤ now ∧ s.clock ≤ now then
      some ⟨{ s.core with waiting := false, ready := s.core.ready + 1 }, now⟩
    else none
  | .handle calls now =>
    if 0 < s.core.ready ∧ s.clock ≤ now then
      some ⟨{ s.core with ready := s.core.ready - 1 }.fireDue calls now, now⟩
    else none

def TimerService.run (s : TimerService) (events : List TimerEvent) : Option TimerService :=
  events.foldlM TimerService.step s

end Hical.Timer
