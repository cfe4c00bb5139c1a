import Hical.Lib.Ledger
import Mathlib.Logic.Function.Basic

namespace Hical.Db
open Ledger

structure DbConfig where
  minConnections : Nat
  maxConnections : Nat

/-- Where a call of `acquire` stands, and what becomes of its connection. A connection is named by
its number. -/
inductive Task where
  /-- Behind the test for shutdown, before the lock. -/
  | entered
  | pinging (conn : Nat)
  | creating
  /-- Waits for its timer, with its result slot. -/
  | waiting (slot : Option Nat)
  /-- Woke up and found its slot empty. -/
  | timedOut (slot : Option Nat)
  | holding (conn : Nat)
  /-- Released inside a transaction. -/
  | rollingBack (conn : Nat)
  | finished
  deriving DecidableEq, Repr

/-- Where `healthCheckLoop` stands. -/
inductive Checker where
  | sleeping
  /-- The connections still to be pinged, those that answered, how many there were, and whether the
  first of those to be pinged is being pinged. -/
  | checking (todo alive : List Nat) (size : Nat) (busy : Bool)
  /-- How many connections are still to be made, and whether one is being made. -/
  | replenishing (left : Nat) (creating : Bool)
  | stopped
  deriving DecidableEq, Repr

/-- Why the pool lets go of a connection. -/
inductive Drop where
  | shutdown
  | idleTrim
  | failedPing
  | failedRollback
  /-- `acquire` found that `isAlive` is false. -/
  | notAlive
  /-- Put into a slot that nobody reads. -/
  | lost
  deriving DecidableEq, Repr

/-- `DbConnectionPool` with its coroutines and connections. -/
structure Pool where
  /-- `idle_`, the last one first. -/
  idle : List Nat := []
  activeCount : Nat := 0
  /-- `waiters_`, each by the task whose slot it holds. -/
  waiters : List Nat := []
  shutdown : Bool := false
  tasks : List Task := []
  checker : Checker := .sleeping
  isAlive : Nat → Bool := fun _ => true
  inTransaction : Nat → Bool := fun _ => false
  /-- How many connections were made. -/
  made : Nat := 0
  /-- Not in the code: the connections that the pool let go of. -/
  dropped : List (Nat × Drop) := []
  /-- Not in the code: a decrement of `activeCount_` that is not guarded met zero. -/
  underflow : Bool := false

namespace Pool

def setTask (p : Pool) (i : Nat) (t : Task) : Pool := { p with tasks := p.tasks.set i t }

def drop (p : Pool) (conns : List Nat) (why : Drop) : Pool :=
  { p with dropped := p.dropped ++ conns.map fun c => (c, why) }

/-- `--activeCount_`. -/
def decrement (p : Pool) : Pool :=
  { p with
    activeCount := if p.activeCount = 0 then 2 ^ 64 - 1 else p.activeCount - 1
    underflow := p.underflow || decide (p.activeCount = 0) }

/-- `if (activeCount_ > 0) --activeCount_`. -/
def decrementGuarded (p : Pool) : Pool :=
  if p.activeCount > 0 then { p with activeCount := p.activeCount - 1 } else p

/-- The check of `healthCheckLoop` gives back what it counted. -/
def giveBack (p : Pool) (size : Nat) : Pool :=
  { p with activeCount := if p.activeCount ≥ size then p.activeCount - size else 0 }

/-- The connections of `idle_` that are dead, from the back, and the first that is not. -/
def popIdle (isAlive : Nat → Bool) : List Nat → List Nat × Option Nat × List Nat
  | [] => ([], none, [])
  | c :: rest =>
    if isAlive c then ([], some c, rest)
    else (c :: (popIdle isAlive rest).1, (popIdle isAlive rest).2)

/-- `acquire` from where it holds the lock, up to where it waits or returns; `recent` tells that the
ping is left out. -/
def lookUp (config : DbConfig) (p : Pool) (i : Nat) (recent : Bool) : Pool :=
  let found := popIdle p.isAlive p.idle
  let p := { p with idle := found.2.2 }.drop found.1 .notAlive
  match found.2.1 with
  | some c =>
    { p with activeCount := p.activeCount + 1 }.setTask i (if recent then .holding c else .pinging c)
  | none =>
    if p.activeCount + p.idle.length < config.maxConnections then
      { p with activeCount := p.activeCount + 1 }.setTask i .creating
    else { p with waiters := p.waiters ++ [i] }.setTask i (.waiting none)

/-- A connection is put into the slot of a task. -/
def fill (p : Pool) (i c : Nat) : Pool :=
  match p.tasks[i]? with
  | some (.waiting none) => p.setTask i (.waiting (some c))
  | some (.timedOut none) => p.setTask i (.timedOut (some c))
  | _ => p.drop [c] .lost

/-- `release` of a connection that is not in a transaction. -/
def returnIdle (p : Pool) (c : Nat) : Pool :=
  let p := p.decrementGuarded
  match p.waiters with
  | w :: waiters => { p with waiters := waiters }.fill w c
  | [] => if p.shutdown then p.drop [c] .shutdown else { p with idle := c :: p.idle }

def release (p : Pool) (i c : Nat) : Pool :=
  if p.inTransaction c then p.setTask i (.rollingBack c) else (p.setTask i .finished).returnIdle c

/-- What `release` does behind a rollback that went well. -/
def rolledBack (p : Pool) (i c : Nat) : Pool :=
  let p := { p with inTransaction := Function.update p.inTransaction c false }.setTask i .finished
  let p := p.decrementGuarded
  if p.shutdown then p.drop [c] .shutdown
  else
    match p.waiters with
    | w :: waiters => { p with waiters := waiters }.fill w c
    | [] => { p with idle := c :: p.idle }

/-- The end of `acquire` in a task whose slot was empty when it woke up. -/
def cleanUp (p : Pool) (i : Nat) (slot : Option Nat) : Pool :=
  let removed := decide (i ∈ p.waiters)
  let p := { p with waiters := p.waiters.filter (· ≠ i) }
  match slot with
  | none => p.setTask i .finished
  | some c =>
    if removed then p.release i c
    else { p with activeCount := p.activeCount + 1 }.setTask i (.holding c)

/-- The loop of `idleCheckLoop` over `idle_`, from its front: what stays and what goes. -/
def trim (minConnections : Nat) (expired : Nat → Bool) : List Nat → Nat → List Nat × List Nat
  | [], _ => ([], [])
  | c :: rest, remaining =>
    if remaining ≤ minConnections then (c :: rest, [])
    else if expired c then
      ((trim minConnections expired rest (remaining - 1)).1,
        c :: (trim minConnections expired rest (remaining - 1)).2)
    else
      (c :: (trim minConnections expired rest remaining).1,
        (trim minConnections expired rest remaining).2)

/-- A new connection. -/
def make (p : Pool) : Pool := { p with made := p.made + 1 }

/-- The end of a round of pings, up to where `healthCheckLoop` makes new connections. -/
def endCheck (config : DbConfig) (p : Pool) (alive : List Nat) (size : Nat) : Pool :=
  let p := p.giveBack size
  let p := { p with idle := alive.reverse ++ p.idle }
  { p with checker := .replenishing (config.minConnections - (p.idle.length + p.activeCount)) false }

end Pool

/-- The steps, with what the surroundings decide. -/
inductive Label where
  | acquire
  | lock (i : Nat) (recent : Bool)
  | pinged (i : Nat) (ok recent : Bool)
  | created (i : Nat) (ok : Bool)
  | timer (i : Nat)
  | cleanUp (i : Nat)
  | release (i : Nat)
  | rolledBack (i : Nat) (ok : Bool)
  | setTransaction (i : Nat) (value : Bool)
  | dies (conn : Nat)
  | trim (expired : Nat → Bool)
  | startCheck
  | check
  | checked (ok : Bool)
  | endCheck
  | replenish
  | replenished (ok : Bool)
  | shutdown
  | clear

/-- One step of the pool, if it can be taken. -/
def step (config : DbConfig) (p : Pool) : Label → Option Pool
  | .acquire =>
    if p.shutdown then none else some { p with tasks := p.tasks ++ [.entered] }
  | .lock i recent =>
    match p.tasks[i]? with
    | some .entered => some (p.lookUp config i recent)
    | _ => none
  | .pinged i ok recent =>
    match p.tasks[i]? with
    | some (.pinging c) =>
      if ok then some (p.setTask i (.holding c))
      else some (((p.drop [c] .failedPing).setTask i .entered).decrement.lookUp config i recent)
    | _ => none
  | .created i ok =>
    match p.tasks[i]? with
    | some .creating =>
      if ok then some (p.make.setTask i (.holding p.made))
      else some (p.decrement.setTask i .finished)
    | _ => none
  | .timer i =>
    match p.tasks[i]? with
    | some (.waiting (some c)) =>
      some ({ p with activeCount := p.activeCount + 1 }.setTask i (.holding c))
    | some (.waiting none) => some (p.setTask i (.timedOut none))
    | _ => none
  | .cleanUp i =>
    match p.tasks[i]? with
    | some (.timedOut slot) => some (p.cleanUp i slot)
    | _ => none
  | .release i =>
    match p.tasks[i]? with
    | some (.holding c) => some (p.release i c)
    | _ => none
  | .rolledBack i ok =>
    match p.tasks[i]? with
    | some (.rollingBack c) =>
      if ok then some (p.rolledBack i c)
      else some (((p.drop [c] .failedRollback).setTask i .finished).decrementGuarded)
    | _ => none
  | .setTransaction i value =>
    match p.tasks[i]? with
    | some (.holding c) =>
      some { p with inTransaction := Function.update p.inTransaction c value }
    | _ => none
  | .dies c => some { p with isAlive := Function.update p.isAlive c false }
  | .trim expired =>
    if p.shutdown then none
    else
      let kept := Pool.trim config.minConnections expired p.idle.reverse p.idle.length
      some ({ p with idle := kept.1.reverse }.drop kept.2 .idleTrim)
  | .startCheck =>
    match p.checker with
    | .sleeping =>
      if p.shutdown then some { p with checker := .stopped }
      else
        some { p with
          checker := .checking p.idle.reverse [] p.idle.length false
          idle := []
          activeCount := p.activeCount + p.idle.length }
    | _ => none
  | .check =>
    match p.checker with
    | .checking (c :: todo) alive size false =>
      if p.shutdown then
        some (({ p with checker := .stopped, idle := alive.reverse ++ p.idle }.giveBack size).drop
          (c :: todo) .shutdown)
      else some { p with checker := .checking (c :: todo) alive size true }
    | _ => none
  | .checked ok =>
    match p.checker with
    | .checking (c :: todo) alive size true =>
      if ok then some { p with checker := .checking todo (alive ++ [c]) size false }
      else some ({ p with checker := .checking todo alive size false }.drop [c] .failedPing)
    | _ => none
  | .endCheck =>
    match p.checker with
    | .checking [] alive size _ => some (p.endCheck config alive size)
    | _ => none
  | .replenish =>
    match p.checker with
    | .replenishing 0 false => some { p with checker := .sleeping }
    | .replenishing (n + 1) false =>
      if p.shutdown then some { p with checker := .stopped }
      else some { p with checker := .replenishing n true }
    | _ => none
  | .replenished ok =>
    match p.checker with
    | .replenishing n true =>
      if ok then
        some { p.make with checker := .replenishing n false, idle := p.made :: p.idle }
      else some { p with checker := .replenishing n false }
    | _ => none
  | .shutdown => some { p with shutdown := true }
  | .clear =>
    if p.shutdown then some ({ p with waiters := [], idle := [] }.drop p.idle .shutdown) else none

/-- What a step does, by the branches that it goes through. -/
inductive Does (config : DbConfig) (p : Pool) : Label → Pool → Prop where
  | acquire (hs : p.shutdown = false) : Does config p .acquire { p with tasks := p.tasks ++ [.entered] }
  | lock (hi : p.tasks[i]? = some .entered) : Does config p (.lock i recent) (p.lookUp config i recent)
  | pinged (hi : p.tasks[i]? = some (.pinging c)) :
      Does config p (.pinged i true recent) (p.setTask i (.holding c))
  | pingFailed (hi : p.tasks[i]? = some (.pinging c)) : Does config p (.pinged i false recent)
      (((p.drop [c] .failedPing).setTask i .entered).decrement.lookUp config i recent)
  | created (hi : p.tasks[i]? = some .creating) :
      Does config p (.created i true) (p.make.setTask i (.holding p.made))
  | notCreated (hi : p.tasks[i]? = some .creating) :
      Does config p (.created i false) (p.decrement.setTask i .finished)
  | handed (hi : p.tasks[i]? = some (.waiting (some c))) :
      Does config p (.timer i) ({ p with activeCount := p.activeCount + 1 }.setTask i (.holding c))
  | timedOut (hi : p.tasks[i]? = some (.waiting none)) :
      Does config p (.timer i) (p.setTask i (.timedOut none))
  | cleanUp (hi : p.tasks[i]? = some (.timedOut slot)) : Does config p (.cleanUp i) (p.cleanUp i slot)
  | release (hi : p.tasks[i]? = some (.holding c)) : Does config p (.release i) (p.release i c)
  | rolledBack (hi : p.tasks[i]? = some (.rollingBack c)) :
      Does config p (.rolledBack i true) (p.rolledBack i c)
  | rollbackFailed (hi : p.tasks[i]? = some (.rollingBack c)) : Does config p (.rolledBack i false)
      ((p.drop [c] .failedRollback).setTask i .finished).decrementGuarded
  | setTransaction (hi : p.tasks[i]? = some (.holding c)) : Does config p (.setTransaction i value)
      { p with inTransaction := Function.update p.inTransaction c value }
  | dies : Does config p (.dies c) { p with isAlive := Function.update p.isAlive c false }
  | trim (hs : p.shutdown = false)
      (hkept : Pool.trim config.minConnections expired p.idle.reverse p.idle.length = kept) :
      Does config p (.trim expired) ({ p with idle := kept.1.reverse }.drop kept.2 .idleTrim)
  | noCheck (hc : p.checker = .sleeping) : Does config p .startCheck { p with checker := .stopped }
  | startCheck (hc : p.checker = .sleeping) (hs : p.shutdown = false) : Does config p .startCheck
      { p with
        checker := .checking p.idle.reverse [] p.idle.length false
        idle := []
        activeCount := p.activeCount + p.idle.length }
  | checkEnded (hc : p.checker = .checking (c :: todo) alive size false) (hs : p.shutdown = true) :
      Does config p .check
        (({ p with checker := .stopped, idle := alive.reverse ++ p.idle }.giveBack size).drop
          (c :: todo) .shutdown)
  | check (hc : p.checker = .checking (c :: todo) alive size false) :
      Does config p .check { p with checker := .checking (c :: todo) alive size true }
  | checked (hc : p.checker = .checking (c :: todo) alive size true) :
      Does config p (.checked true) { p with checker := .checking todo (alive ++ [c]) size false }
  | checkFailed (hc : p.checker = .checking (c :: todo) alive size true) : Does config p (.checked false)
      ({ p with checker := .checking todo alive size false }.drop [c] .failedPing)
  | endCheck (hc : p.checker = .checking [] alive size busy) :
      Does config p .endCheck (p.endCheck config alive size)
  | full (hc : p.checker = .replenishing 0 false) : Does config p .replenish { p with checker := .sleeping }
  | noReplenish (hc : p.checker = .replenishing (n + 1) false) :
      Does config p .replenish { p with checker := .stopped }
  | replenish (hc : p.checker = .replenishing (n + 1) false) (hs : p.shutdown = false) :
      Does config p .replenish { p with checker := .replenishing n true }
  | replenished (hc : p.checker = .replenishing n true) : Does config p (.replenished true)
      { p.make with checker := .replenishing n false, idle := p.made :: p.idle }
  | notReplenished (hc : p.checker = .replenishing n true) :
      Does config p (.replenished false) { p with checker := .replenishing n false }
  | shutdown : Does config p .shutdown { p with shutdown := true }
  | clear (hs : p.shutdown = true) :
      Does config p .clear ({ p with waiters := [], idle := [] }.drop p.idle .shutdown)

theorem step_does (hs : step config p label = some p') : Does config p label p' := by
  cases label with
  | dies | shutdown => cases hs; constructor
  | pinged i ok | created i ok | rolledBack i ok | checked ok | replenished ok =>
    rw [step] at hs
    split at hs
    · next h => cases ok <;> (cases hs; constructor; exact h)
    · cases hs
  | trim expired =>
    rw [step] at hs
    split at hs
    · cases hs
    · next hn =>
      cases hs
      exact .trim (Bool.eq_false_iff.2 hn) rfl
  | _ =>
    rw [step] at hs
    (repeat' split at hs) <;> cases hs <;> constructor <;>
      first | assumption | exact Bool.eq_false_iff.2 ‹_›

/-- The states that the pool comes to from a start with some idle connections. -/
inductive Reaches (config : DbConfig) (C : Pool → Label → Prop) (p₀ : Pool) : Pool → Prop where
  | start : Reaches config C p₀ p₀
  | step (h : Reaches config C p₀ p) (hc : C p label) (hs : step config p label = some p') :
      Reaches config C p₀ p'

theorem Reaches.free (h : Reaches config C p₀ p) : Reaches config (fun _ _ => True) p₀ p := by
  induction h with
  | start => exact .start
  | step _ _ hs ih => exact .step ih trivial hs

/-- The steps, one after the other, each of which has to meet a condition. -/
def steps (config : DbConfig) (C : Pool → Label → Prop) [∀ p label, Decidable (C p label)] (p : Pool) :
    List Label → Option Pool
  | [] => some p
  | label :: labels =>
    if C p label then (step config p label).bind fun p => steps config C p labels else none

theorem reaches_steps {config : DbConfig} {C : Pool → Label → Prop} [∀ p label, Decidable (C p label)]
    (h : Reaches config C p₀ p) (hs : steps config C p labels = some p') : Reaches config C p₀ p' := by
  induction labels generalizing p with
  | nil =>
    cases hs
    exact h
  | cons label labels ih =>
    rw [steps] at hs
    split at hs
    · next hc =>
      obtain ⟨q, hq, hs⟩ := Option.bind_eq_some_iff.1 hs
      exact ih (.step h hc hq) hs
    · cases hs

/-- Nobody gets a connection in a step. -/
def Withheld (p p' : Pool) : Prop :=
  ∀ i c : Nat, p'.tasks[i]? = some (.holding c) → p.tasks[i]? = some (.holding c)

/-- The pool behind `init`. -/
def start (n : Nat) : Pool := { idle := (List.range n).reverse, made := n }

end Hical.Db
