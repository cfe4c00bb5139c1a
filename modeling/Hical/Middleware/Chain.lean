import Hical.Lib.Log

namespace Hical
open Effect

section Chain
variable {S ε ρ : Type}

/-- What an asynchronous entry runs: user code, or the gate that reads the body. -/
inductive MiddlewareHandler (S ε ρ : Type) where
  | code (p : Prog S ε ρ)
  | bodyGate

inductive MiddlewareEntry (S ε ρ : Type) where
  | hAsync (asyncHandler : MiddlewareHandler S ε ρ) (needsBody : Bool)
  | hSync (before : Option (Eff S ε (Option ρ))) (after : Option (ρ → Eff S ε ρ))
      (needsBody : Bool)

namespace MiddlewareEntry

def needsBody : MiddlewareEntry S ε ρ → Bool
  | .hAsync _ b => b
  | .hSync _ _ b => b

def isSync : MiddlewareEntry S ε ρ → Bool
  | .hAsync _ _ => false
  | .hSync _ _ _ => true

def asyncHandler : MiddlewareEntry S ε ρ → Option (MiddlewareHandler S ε ρ)
  | .hAsync h _ => some h
  | .hSync _ _ _ => none

def before : MiddlewareEntry S ε ρ → Option (Eff S ε (Option ρ))
  | .hAsync _ _ => none
  | .hSync b _ _ => b

def after : MiddlewareEntry S ε ρ → Option (ρ → Eff S ε ρ)
  | .hAsync _ _ => none
  | .hSync _ a _ => a

/-- The entry that `withBodyGate` adds. -/
def gate : MiddlewareEntry S ε ρ := .hAsync .bodyGate false

end MiddlewareEntry

def bodyGate (readBody : Option (Eff S ε (Option ρ))) (next : Eff S ε ρ) : Eff S ε ρ :=
  match readBody with
  | none => next
  | some read => do
    match ← read with
    | some err => return err
    | none => next

def MiddlewareHandler.call (readBody : Option (Eff S ε (Option ρ))) :
    MiddlewareHandler S ε ρ → Eff S ε ρ → Eff S ε ρ
  | .code p, next => p.exec next
  | .bodyGate, next => Hical.bodyGate readBody next

def insertBefore (marked : α → Bool) (x : α) (l : List α) : Option (List α) :=
  match l.findIdx? marked with
  | none => none
  | some first => some (l.take first ++ x :: l.drop first)

def withBodyGate (entries : List (MiddlewareEntry S ε ρ)) :
    Option (List (MiddlewareEntry S ε ρ)) :=
  insertBefore MiddlewareEntry.needsBody .gate entries

/-- The entries a chain is built from: the registered ones with the gate where one is due. -/
def chainEntries (entries : List (MiddlewareEntry S ε ρ)) : List (MiddlewareEntry S ε ρ) :=
  (withBodyGate entries).getD entries

def buildChainFrom (readBody : Option (Eff S ε (Option ρ)))
    (middlewares : List (MiddlewareHandler S ε ρ)) (finalHandler : Eff S ε ρ) : Eff S ε ρ :=
  middlewares.foldr (fun mw next => mw.call readBody next) finalHandler

/-- The befores of a run, in registration order, up to the first that intercepts. -/
def runBefores : List (Eff S ε (Option ρ)) → Eff S ε (Option ρ)
  | [] => pure none
  | before :: befores => do
    match ← before with
    | some intercepted => return some intercepted
    | none => runBefores befores

def runAfters : List (ρ → Eff S ε ρ) → ρ → Eff S ε ρ
  | [], res => pure res
  | after :: afters, res => do
    let res ← runAfters afters res
    after res

/-- The one coroutine that stands for a whole run of synchronous entries. -/
def mergedRun (run : List (MiddlewareEntry S ε ρ)) (next : Eff S ε ρ) : Eff S ε ρ := do
  match ← runBefores (run.filterMap MiddlewareEntry.before) with
  | some intercepted => return intercepted
  | none =>
    let res ← next
    runAfters (run.filterMap MiddlewareEntry.after) res

def closeRun (run : List (MiddlewareEntry S ε ρ)) (current : Eff S ε ρ) : Eff S ε ρ :=
  match run with
  | [] => current
  | e :: es => mergedRun (e :: es) current

/-- The backward loop over the entries: the run of synchronous entries being collected, and the
chain built from the entries behind it. -/
def mergeRuns (readBody : Option (Eff S ε (Option ρ))) (finalHandler : Eff S ε ρ) :
    List (MiddlewareEntry S ε ρ) → List (MiddlewareEntry S ε ρ) × Eff S ε ρ
  | [] => ([], finalHandler)
  | .hAsync h _ :: es =>
    let (run, current) := mergeRuns readBody finalHandler es
    ([], h.call readBody (closeRun run current))
  | .hSync b a nb :: es =>
    let (run, current) := mergeRuns readBody finalHandler es
    (.hSync b a nb :: run, current)

def buildOptimizedChain (readBody : Option (Eff S ε (Option ρ)))
    (entries : List (MiddlewareEntry S ε ρ)) (finalHandler : Eff S ε ρ) : Eff S ε ρ :=
  match chainEntries entries with
  | [] => finalHandler
  | e :: es =>
    if (e :: es).any MiddlewareEntry.isSync then
      let (run, current) := mergeRuns readBody finalHandler (e :: es)
      closeRun run current
    else buildChainFrom readBody ((e :: es).filterMap MiddlewareEntry.asyncHandler) finalHandler

/-- A synchronous entry as a layer of its own. -/
def syncLayer (before : Option (Eff S ε (Option ρ))) (after : Option (ρ → Eff S ε ρ))
    (next : Eff S ε ρ) : Eff S ε ρ := do
  match ← before.getD (pure none) with
  | some intercepted => return intercepted
  | none =>
    let res ← next
    after.getD pure res

def onionChain (readBody : Option (Eff S ε (Option ρ))) (finalHandler : Eff S ε ρ) :
    List (MiddlewareEntry S ε ρ) → Eff S ε ρ
  | [] => finalHandler
  | .hAsync h _ :: es => h.call readBody (onionChain readBody finalHandler es)
  | .hSync b a _ :: es => syncLayer b a (onionChain readBody finalHandler es)

end Chain

section Trace
variable {S ε ρ : Type}

/-- The calls an observer of a chain sees, with the position of the entry that is called. -/
inductive Event where
  | before (i : Nat)
  | after (i : Nat)
  | async (i : Nat)
  | handler
  deriving DecidableEq, Repr

def MiddlewareEntry.traced (i : Nat) :
    MiddlewareEntry S ε ρ → MiddlewareEntry (S × List Event) ε ρ
  | .hAsync (.code p) nb =>
    .hAsync (.code (.act (fun s => (s.1, s.2 ++ [.async i])) fun _ => p.lift)) nb
  | .hAsync .bodyGate nb => .hAsync .bodyGate nb
  | .hSync b a nb =>
    .hSync (b.map fun b => do report (.before i); b.lift)
      (a.map fun a => fun res => do report (.after i); (a res).lift) nb

def tracedEntries (entries : List (MiddlewareEntry S ε ρ)) :
    List (MiddlewareEntry (S × List Event) ε ρ) :=
  entries.zipIdx.map fun e => e.1.traced e.2

def tracedHandler (finalHandler : Eff S ε ρ) : Eff (S × List Event) ε ρ := do
  report .handler
  finalHandler.lift

/-- What an observer sees of a chain started in a state: how it ended and the calls it made. -/
def observed (chain : Eff (S × List Event) ε ρ) (s : S) : Except ε ρ × List Event :=
  ((chain.exec (s, [])).1, (chain.exec (s, [])).2.2)

def observedOptimized (readBody : Option (Eff S ε (Option ρ)))
    (entries : List (MiddlewareEntry S ε ρ)) (finalHandler : Eff S ε ρ) (s : S) :
    Except ε ρ × List Event :=
  observed (buildOptimizedChain (readBody.map Eff.lift) (tracedEntries entries)
    (tracedHandler finalHandler)) s

def observedOnion (readBody : Option (Eff S ε (Option ρ)))
    (entries : List (MiddlewareEntry S ε ρ)) (finalHandler : Eff S ε ρ) (s : S) :
    Except ε ρ × List Event :=
  observed (onionChain (readBody.map Eff.lift) (tracedHandler finalHandler)
    (chainEntries (tracedEntries entries))) s

/-- No before intercepts while an earlier entry of its run still owes an after. -/
def interceptsUnowed (readBody : Option (Eff S ε (Option ρ))) (finalHandler : Eff S ε ρ) :
    Bool → List (MiddlewareEntry S ε ρ) → S → Bool
  | _, [], _ => true
  | _, .hAsync (.code p) _ :: es, s =>
    (p.visits (onionChain readBody finalHandler es) s).all
      (interceptsUnowed readBody finalHandler false es)
  | _, .hAsync .bodyGate _ :: es, s =>
    match readBody with
    | none => interceptsUnowed readBody finalHandler false es s
    | some read =>
      match read.exec s with
      | (.ok none, s') => interceptsUnowed readBody finalHandler false es s'
      | _ => true
  | owed, .hSync b a _ :: es, s =>
    match (b.getD (pure none)).exec s with
    | (.ok (some _), _) => !owed
    | (.ok none, s') => interceptsUnowed readBody finalHandler (owed || a.isSome) es s'
    | (.error _, _) => true

end Trace

end Hical
