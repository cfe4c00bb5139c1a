import Mathlib.Data.Finset.Basic
import Mathlib.Logic.Function.Basic

/-! The pools of the worker threads, which `gc` marks and their threads release. -/

namespace Hical

/-- `MemoryPool::ThreadPoolEntry`, with the blocks that are live in its pool. -/
structure ThreadPoolEntry where
  live : Finset Nat := ∅
  lastAllocTime : Int
  needsRelease : Bool := false
  /-- The thread is between the exchange of the mark and the store of the time. -/
  lookingUp : Bool := false

/-- A call of `gc` that holds `threadPoolsMutex_`: the threads whose entries are still to be visited,
and whether the first of them was found idle and is about to be marked. -/
structure GcRun where
  now : Int
  maxIdle : Int
  todo : List Nat
  idle : Bool := false

/-- Not in the code: what was done. -/
inductive PoolHappened where
  | allocated (thread block : Nat)
  | deallocated (thread block : Nat)
  /-- The exchange in `getOrCreateThreadPool`. -/
  | lookedUp (thread : Nat)
  /-- The store in `gc`. -/
  | marked (thread : Nat)
  deriving DecidableEq

structure MemoryPool where
  /-- `threadPools_`, by thread. -/
  pool : Nat → Option ThreadPoolEntry := fun _ => none
  threads : List Nat := []
  gc : Option GcRun := none
  /-- The latest reading of the clock. -/
  clock : Int := 0
  made : Nat := 0
  /-- Not in the code: the releases, each with the blocks that were live. -/
  released : List (Nat × Finset Nat) := []
  /-- Not in the code: what was done, the latest first. -/
  past : List PoolHappened := []

/-- `threadLocalAllocator`, `threadLocalPool` and `createRequestPool` look up the pool of their
thread; what they return allocates and deallocates without a look-up. A time that is stored or
compared was read from the clock before. -/
inductive PoolEvent where
  | tick (now : Int)
  /-- The first look-up of a thread. -/
  | create (thread : Nat) (now : Int)
  | lookUp (thread : Nat)
  | stamp (thread : Nat) (now : Int)
  | allocate (thread : Nat)
  | deallocate (thread block : Nat)
  | gcStart (now maxIdle : Int)
  | gcCheck
  | gcMark
  | gcEnd

namespace MemoryPool

def setEntry (c : MemoryPool) (thread : Nat) (e : ThreadPoolEntry) : MemoryPool :=
  { c with pool := Function.update c.pool thread (some e) }

def create (c : MemoryPool) (thread : Nat) (now : Int) : Option MemoryPool :=
  if (c.pool thread).isNone ∧ c.gc.isNone ∧ now ≤ c.clock then
    some { c.setEntry thread { lastAllocTime := now } with threads := c.threads ++ [thread] }
  else none

/-- The exchange of the mark, and `release`. -/
def lookUp (c : MemoryPool) (thread : Nat) (e : ThreadPoolEntry) : MemoryPool :=
  if e.needsRelease then
    { c.setEntry thread { e with needsRelease := false, lookingUp := true, live := ∅ } with
      released := (thread, e.live) :: c.released, past := .lookedUp thread :: c.past }
  else { c.setEntry thread { e with lookingUp := true } with past := .lookedUp thread :: c.past }

def stamp (c : MemoryPool) (thread : Nat) (now : Int) (e : ThreadPoolEntry) : MemoryPool :=
  c.setEntry thread { e with lastAllocTime := now, lookingUp := false }

def allocate (c : MemoryPool) (thread : Nat) (e : ThreadPoolEntry) : MemoryPool :=
  { c.setEntry thread { e with live := insert c.made e.live } with
    made := c.made + 1, past := .allocated thread c.made :: c.past }

def deallocate (c : MemoryPool) (thread block : Nat) (e : ThreadPoolEntry) : MemoryPool :=
  { c.setEntry thread { e with live := e.live.erase block } with past := .deallocated thread block :: c.past }

/-- The entry of the thread that `gc` is at is found idle or left alone. -/
def gcCheck (c : MemoryPool) (run : GcRun) (e : ThreadPoolEntry) : MemoryPool :=
  if run.maxIdle < run.now - e.lastAllocTime then { c with gc := some { run with idle := true } }
  else { c with gc := some { run with todo := run.todo.tail } }

def gcMark (c : MemoryPool) (run : GcRun) (thread : Nat) (e : ThreadPoolEntry) : MemoryPool :=
  { c.setEntry thread { e with needsRelease := true } with
    gc := some { run with todo := run.todo.tail, idle := false }, past := .marked thread :: c.past }

/-- The entry that a call of `gc` is at. -/
def visited (c : MemoryPool) (idle : Bool) : Option (GcRun × Nat × ThreadPoolEntry) := do
  let run ← c.gc
  let thread ← run.todo.head?
  let e ← c.pool thread
  if run.idle = idle then some (run, thread, e) else none

/-- One event; none is where it cannot happen. -/
def step (c : MemoryPool) : PoolEvent → Option MemoryPool
  | .tick now => if c.clock ≤ now then some { c with clock := now } else none
  | .create thread now => c.create thread now
  | .lookUp thread => ((c.pool thread).filter fun e => !e.lookingUp).map (c.lookUp thread)
  | .stamp thread now =>
    if now ≤ c.clock then ((c.pool thread).filter fun e => e.lookingUp).map (c.stamp thread now) else none
  | .allocate thread => ((c.pool thread).filter fun e => !e.lookingUp).map (c.allocate thread)
  | .deallocate thread block =>
    if .allocated thread block ∈ c.past ∧ .deallocated thread block ∉ c.past then
      ((c.pool thread).filter fun e => !e.lookingUp).map (c.deallocate thread block)
    else none
  | .gcStart now maxIdle =>
    if c.gc.isNone ∧ now ≤ c.clock then some { c with gc := some ⟨now, maxIdle, c.threads, false⟩ } else none
  | .gcCheck => (c.visited false).map fun v => c.gcCheck v.1 v.2.2
  | .gcMark => (c.visited true).map fun v => c.gcMark v.1 v.2.1 v.2.2
  | .gcEnd => (c.gc.filter fun run => run.todo.isEmpty).map fun _ => { c with gc := none }

def run (c : MemoryPool) : List PoolEvent → Option MemoryPool
  | [] => some c
  | e :: events => (c.step e).bind fun c' => c'.run events

/-- Nothing was released that was live. -/
def Safe (c : MemoryPool) : Prop := ∀ r ∈ c.released, r.2 = ∅

def since (thread : Nat) (past : List PoolHappened) : List PoolHappened := past.takeWhile (· ≠ .lookedUp thread)

/-- A look-up does not come after a mark of `gc` that found the thread idle, with no look-up in
between, while the thread has blocks that it did not deallocate. -/
def Settled (c : MemoryPool) : PoolEvent → Prop
  | .lookUp thread => .marked thread ∈ since thread c.past →
      ∀ block, .allocated thread block ∈ c.past → .deallocated thread block ∈ c.past
  | _ => True

/-- All look-ups of the run are settled. -/
def AllSettled (c : MemoryPool) : List PoolEvent → Prop
  | [] => True
  | e :: events => c.Settled e ∧ ∀ c', c.step e = some c' → c'.AllSettled events

/-- The flag of an entry and its blocks, told from what was done. -/
structure Inv (c : MemoryPool) : Prop where
  flag : ∀ thread e, c.pool thread = some e → (e.needsRelease = true ↔ .marked thread ∈ since thread c.past)
  live : c.Safe → ∀ thread e, c.pool thread = some e →
    ∀ block, block ∈ e.live ↔ .allocated thread block ∈ c.past ∧ .deallocated thread block ∉ c.past
  fresh : ∀ thread block, .allocated thread block ∈ c.past → block < c.made
  freed : ∀ thread block, .deallocated thread block ∈ c.past → .allocated thread block ∈ c.past
  unborn : ∀ thread, c.pool thread = none → .marked thread ∉ c.past ∧ ∀ block, .allocated thread block ∉ c.past

variable {c c' : MemoryPool} {thread : Nat} {e : ThreadPoolEntry}

theorem inv_start : Inv {} where
  flag _ _ h := nomatch h
  live _ _ _ h := nomatch h
  fresh _ _ h := nomatch h
  freed _ _ h := nomatch h
  unborn _ _ := ⟨List.not_mem_nil, fun _ => List.not_mem_nil⟩

theorem marked_since_cons {past : List PoolHappened} : .marked thread ∈ since thread (x :: past) ↔
    x ≠ .lookedUp thread ∧ (x = .marked thread ∨ .marked thread ∈ since thread past) := by
  by_cases hx : x = .lookedUp thread
  · simp [since, hx]
  · rw [since, List.takeWhile_cons_of_pos (by simpa using hx), List.mem_cons, and_iff_right hx]
    exact or_congr_left eq_comm

theorem pool_setEntry (c : MemoryPool) (thread : Nat) (e : ThreadPoolEntry) (other : Nat) :
    (c.setEntry thread e).pool other = if other = thread then some e else c.pool other :=
  Function.update_apply ..

theorem Inv.quiet (c' : MemoryPool) (h : Inv c) (hpast : c'.past = c.past) (hmade : c'.made = c.made) (hrel : c'.released = c.released)
    (hpool : ∀ thread e', c'.pool thread = some e' →
      ∃ e, c.pool thread = some e ∧ e.needsRelease = e'.needsRelease ∧ e.live = e'.live)
    (hnone : ∀ thread, c'.pool thread = none → c.pool thread = none) : Inv c' := by
  constructor
  · intro thread e' he'
    obtain ⟨e, he, hflag, -⟩ := hpool thread e' he'
    rw [← hflag, hpast]
    exact h.flag thread e he
  · intro hsafe thread e' he'
    obtain ⟨e, he, -, hlive⟩ := hpool thread e' he'
    rw [← hlive, hpast]
    rw [Safe, hrel] at hsafe
    exact h.live hsafe thread e he
  · rw [hpast, hmade]
    exact h.fresh
  · rw [hpast]
    exact h.freed
  · intro thread hthread
    rw [hpast]
    exact h.unborn thread (hnone thread hthread)

theorem Inv.setQuiet (h : Inv c) (he : c.pool thread = some e) {e' : ThreadPoolEntry}
    (hflag : e.needsRelease = e'.needsRelease) (hlive : e.live = e'.live) : Inv (c.setEntry thread e') := by
  apply h.quiet (c.setEntry thread e') rfl rfl rfl
  · intro other e'' he''
    rw [pool_setEntry] at he''
    split at he''
    · next heq =>
      cases he''
      exact ⟨e, heq ▸ he, hflag, hlive⟩
    · exact ⟨e'', he'', rfl, rfl⟩
  · intro other hother
    rw [pool_setEntry] at hother
    split at hother
    · cases hother
    · exact hother

theorem Inv.create (h : Inv c) (hc : c.create thread now = some c') : Inv c' ∧ c'.released = c.released := by
  obtain ⟨hnone, rfl⟩ := Option.ite_some_none_eq_some.1 hc
  have hborn := h.unborn thread (Option.isNone_iff_eq_none.1 hnone.1)
  refine ⟨⟨fun other e he => ?_, fun hsafe other e he block => ?_, h.fresh, h.freed, fun other hother => ?_⟩, rfl⟩
  · dsimp only at he ⊢
    rw [pool_setEntry] at he
    split at he
    · next heq =>
      subst heq
      cases he
      exact iff_of_false (by simp) fun hm => hborn.1 (List.takeWhile_subset _ hm)
    · exact h.flag other e he
  · dsimp only at he ⊢
    rw [pool_setEntry] at he
    split at he
    · next heq =>
      subst heq
      cases he
      exact iff_of_false (by simp) fun hm => hborn.2 block hm.1
    · exact h.live hsafe other e he block
  · dsimp only at hother
    rw [pool_setEntry] at hother
    split at hother
    · cases hother
    · exact h.unborn other hother

theorem Inv.allocate (h : Inv c) (he : c.pool thread = some e) : Inv (c.allocate thread e) := by
  constructor
  · intro other e' he'
    change (c.setEntry thread { e with live := insert c.made e.live }).pool other = some e' at he'
    change _ ↔ _ ∈ since other (_ :: c.past)
    rw [marked_since_cons]
    rw [pool_setEntry] at he'
    split at he'
    · next heq =>
      subst heq
      cases he'
      simpa using h.flag other e he
    · simpa using h.flag other e' he'
  · intro hsafe other e' he' block
    change (c.setEntry thread { e with live := insert c.made e.live }).pool other = some e' at he'
    change _ ↔ _ ∈ .allocated thread c.made :: c.past ∧ _ ∉ .allocated thread c.made :: c.past
    have hnew : .deallocated thread c.made ∉ c.past := fun hd =>
      Nat.lt_irrefl _ (h.fresh _ _ (h.freed _ _ hd))
    rw [pool_setEntry] at he'
    split at he'
    · next heq =>
      subst heq
      cases he'
      have hlive := h.live hsafe other e he block
      by_cases hb : block = c.made
      · subst hb
        simp [hnew]
      · simp [hb, hlive]
    · next hne =>
      have hlive := h.live hsafe other e' he' block
      simp [hne, hlive]
  · intro other block hm
    rcases List.mem_cons.1 hm with heq | hm
    · cases heq
      exact Nat.lt_succ_self _
    · exact Nat.lt_succ_of_lt (h.fresh other block hm)
  · intro other block hm
    rcases List.mem_cons.1 hm with heq | hm
    · cases heq
    · exact List.mem_cons_of_mem _ (h.freed other block hm)
  · intro other hother
    change (c.setEntry thread { e with live := insert c.made e.live }).pool other = none at hother
    change _ ∉ .allocated thread c.made :: c.past ∧ ∀ block, _ ∉ .allocated thread c.made :: c.past
    rw [pool_setEntry] at hother
    split at hother
    · cases hother
    · next hne => simpa [hne] using h.unborn other hother

theorem Inv.deallocate (h : Inv c) (he : c.pool thread = some e) (hb : .allocated thread block ∈ c.past) :
    Inv (c.deallocate thread block e) := by
  constructor
  · intro other e' he'
    change (c.setEntry thread { e with live := e.live.erase block }).pool other = some e' at he'
    change _ ↔ _ ∈ since other (_ :: c.past)
    rw [marked_since_cons]
    rw [pool_setEntry] at he'
    split at he'
    · next heq =>
      subst heq
      cases he'
      simpa using h.flag other e he
    · simpa using h.flag other e' he'
  · intro hsafe other e' he' b
    change (c.setEntry thread { e with live := e.live.erase block }).pool other = some e' at he'
    change _ ↔ _ ∈ .deallocated thread block :: c.past ∧ _ ∉ .deallocated thread block :: c.past
    rw [pool_setEntry] at he'
    split at he'
    · next heq =>
      subst heq
      cases he'
      have hlive := h.live hsafe other e he b
      by_cases hbb : b = block
      · simp [hbb]
      · simp [hbb, hlive]
    · next hne =>
      have hlive := h.live hsafe other e' he' b
      simp [hne, hlive]
  · intro other b hm
    exact h.fresh other b ((List.mem_cons.1 hm).resolve_left fun heq => (nomatch heq))
  · intro other b hm
    rcases List.mem_cons.1 hm with heq | hm
    · cases heq
      exact List.mem_cons_of_mem _ hb
    · exact List.mem_cons_of_mem _ (h.freed other b hm)
  · intro other hother
    change (c.setEntry thread { e with live := e.live.erase block }).pool other = none at hother
    change _ ∉ .deallocated thread block :: c.past ∧ ∀ b, _ ∉ .deallocated thread block :: c.past
    rw [pool_setEntry] at hother
    split at hother
    · cases hother
    · simpa using h.unborn other hother

theorem Inv.gcMark (h : Inv c) (he : c.pool thread = some e) (run : GcRun) : Inv (c.gcMark run thread e) := by
  constructor
  · intro other e' he'
    change (c.setEntry thread { e with needsRelease := true }).pool other = some e' at he'
    change _ ↔ _ ∈ since other (_ :: c.past)
    rw [marked_since_cons]
    rw [pool_setEntry] at he'
    split at he'
    · next heq =>
      subst heq
      cases he'
      simp
    · next hne => simpa [Ne.symm hne] using h.flag other e' he'
  · intro hsafe other e' he' block
    change (c.setEntry thread { e with needsRelease := true }).pool other = some e' at he'
    change _ ↔ _ ∈ .marked thread :: c.past ∧ _ ∉ .marked thread :: c.past
    rw [pool_setEntry] at he'
    split at he'
    · next heq =>
      subst heq
      cases he'
      simpa using h.live hsafe other e he block
    · simpa using h.live hsafe other e' he' block
  · intro other block hm
    exact h.fresh other block ((List.mem_cons.1 hm).resolve_left fun heq => (nomatch heq))
  · intro other block hm
    exact List.mem_cons_of_mem _ (h.freed other block ((List.mem_cons.1 hm).resolve_left fun heq => (nomatch heq)))
  · intro other hother
    change (c.setEntry thread { e with needsRelease := true }).pool other = none at hother
    change _ ∉ .marked thread :: c.past ∧ ∀ block, _ ∉ .marked thread :: c.past
    rw [pool_setEntry] at hother
    split at hother
    · cases hother
    · next hne => simpa [hne] using h.unborn other hother

/-- The release of a marked pool is safe exactly if the thread deallocated all its blocks. -/
theorem safe_lookUp_iff (h : Inv c) (he : c.pool thread = some e) :
    (c.lookUp thread e).Safe ↔ c.Safe ∧ c.Settled (.lookUp thread) := by
  rw [lookUp, Settled, ← h.flag thread e he]
  by_cases hmark : e.needsRelease = true
  · rw [if_pos hmark]
    change (∀ r ∈ (thread, e.live) :: c.released, r.2 = ∅) ↔ _
    rw [List.forall_mem_cons, and_comm]
    apply and_congr_right
    intro hsafe
    rw [Finset.eq_empty_iff_forall_notMem]
    constructor
    · intro hempty _ block hb
      by_contra hd
      exact hempty block ((h.live hsafe thread e he block).2 ⟨hb, hd⟩)
    · intro hall block hb
      have hlive := (h.live hsafe thread e he block).1 hb
      exact hlive.2 (hall hmark block hlive.1)
  · rw [if_neg hmark]
    exact ⟨fun hsafe => ⟨hsafe, fun hm => absurd hm hmark⟩, fun hsafe => hsafe.1⟩

theorem Inv.lookUp (h : Inv c) (he : c.pool thread = some e) : Inv (c.lookUp thread e) := by
  have hsafe := safe_lookUp_iff h he
  have hpast : (c.lookUp thread e).past = .lookedUp thread :: c.past := by
    rw [MemoryPool.lookUp]
    split
    · rfl
    · rfl
  have hmade : (c.lookUp thread e).made = c.made := by
    rw [MemoryPool.lookUp]
    split
    · rfl
    · rfl
  have hpool : ∀ other, (c.lookUp thread e).pool other = if other = thread then
      some { e with needsRelease := false, lookingUp := true, live := if e.needsRelease then ∅ else e.live }
      else c.pool other := by
    intro other
    rw [MemoryPool.lookUp]
    split
    · exact pool_setEntry ..
    · next hmark =>
      have hflag : e.needsRelease = false := by simpa using hmark
      refine (pool_setEntry ..).trans ?_
      rw [← hflag]
  constructor
  · intro other e' he'
    rw [hpool] at he'
    rw [hpast, marked_since_cons]
    split at he'
    · next heq =>
      subst heq
      cases he'
      simp
    · next hne => simpa [Ne.symm hne] using h.flag other e' he'
  · intro hs other e' he' block
    obtain ⟨hbefore, hset⟩ := hsafe.1 hs
    rw [hpool] at he'
    rw [hpast]
    split at he'
    · next heq =>
      subst heq
      cases he'
      have hlive := h.live hbefore other e he block
      by_cases hmark : e.needsRelease = true
      · have hall := hset ((h.flag other e he).1 hmark) block
        simpa [hmark] using hall
      · simpa [hmark] using hlive
    · simpa using h.live hbefore other e' he' block
  · rw [hpast, hmade]
    intro other block hm
    exact h.fresh other block ((List.mem_cons.1 hm).resolve_left fun heq => (nomatch heq))
  · rw [hpast]
    intro other block hm
    exact List.mem_cons_of_mem _ (h.freed other block ((List.mem_cons.1 hm).resolve_left fun heq => (nomatch heq)))
  · intro other hother
    rw [hpool] at hother
    rw [hpast]
    split at hother
    · cases hother
    · simpa using h.unborn other hother

theorem visited_pool {v : GcRun × Nat × ThreadPoolEntry} (h : c.visited idle = some v) : c.pool v.2.1 = some v.2.2 := by
  rw [visited] at h
  obtain ⟨run, -, h⟩ := Option.bind_eq_some_iff.1 h
  obtain ⟨thread, -, h⟩ := Option.bind_eq_some_iff.1 h
  obtain ⟨e, he, h⟩ := Option.bind_eq_some_iff.1 h
  split at h
  · cases h
    exact he
  · cases h

theorem Inv.unchanged (h : Inv c) (clock : Int) (gc : Option GcRun) : Inv { c with clock := clock, gc := gc } :=
  ⟨h.flag, h.live, h.fresh, h.freed, h.unborn⟩

/-- One event keeps the invariant, and is safe exactly if it is settled. -/
theorem Inv.step (h : Inv c) (event : PoolEvent) (hs : c.step event = some c') :
    Inv c' ∧ (c'.Safe ↔ c.Safe ∧ c.Settled event) := by
  have hquiet : c'.released = c.released → c.Settled event → (c'.Safe ↔ c.Safe ∧ c.Settled event) := by
    intro hrel hset
    rw [Safe, hrel]
    exact ⟨fun hsafe => ⟨hsafe, hset⟩, fun hsafe => hsafe.1⟩
  cases event with
  | tick now =>
    obtain ⟨-, rfl⟩ := Option.ite_some_none_eq_some.1 hs
    exact ⟨h.unchanged now c.gc, hquiet rfl trivial⟩
  | create thread now =>
    obtain ⟨hi, hrel⟩ := h.create hs
    exact ⟨hi, hquiet hrel trivial⟩
  | lookUp thread =>
    obtain ⟨e, he, rfl⟩ := Option.map_eq_some_iff.1 hs
    have he := (Option.filter_eq_some_iff.1 he).1
    exact ⟨h.lookUp he, safe_lookUp_iff h he⟩
  | stamp thread now =>
    rw [MemoryPool.step] at hs
    split at hs
    · obtain ⟨e, he, rfl⟩ := Option.map_eq_some_iff.1 hs
      exact ⟨h.setQuiet (Option.filter_eq_some_iff.1 he).1 rfl rfl, hquiet rfl trivial⟩
    · cases hs
  | allocate thread =>
    obtain ⟨e, he, rfl⟩ := Option.map_eq_some_iff.1 hs
    exact ⟨h.allocate (Option.filter_eq_some_iff.1 he).1, hquiet rfl trivial⟩
  | deallocate thread block =>
    rw [MemoryPool.step] at hs
    split at hs
    · next hb =>
      obtain ⟨e, he, rfl⟩ := Option.map_eq_some_iff.1 hs
      exact ⟨h.deallocate (Option.filter_eq_some_iff.1 he).1 hb.1, hquiet rfl trivial⟩
    · cases hs
  | gcStart now maxIdle =>
    obtain ⟨-, rfl⟩ := Option.ite_some_none_eq_some.1 hs
    exact ⟨h.unchanged c.clock _, hquiet rfl trivial⟩
  | gcCheck =>
    obtain ⟨v, hv, rfl⟩ := Option.map_eq_some_iff.1 hs
    rw [MemoryPool.gcCheck] at hquiet ⊢
    split at hquiet
    · next hidle =>
      rw [if_pos hidle]
      exact ⟨h.unchanged c.clock _, hquiet rfl trivial⟩
    · next hidle =>
      rw [if_neg hidle]
      exact ⟨h.unchanged c.clock _, hquiet rfl trivial⟩
  | gcMark =>
    obtain ⟨v, hv, rfl⟩ := Option.map_eq_some_iff.1 hs
    exact ⟨h.gcMark (visited_pool hv) v.1, hquiet rfl trivial⟩
  | gcEnd =>
    obtain ⟨run, hr, rfl⟩ := Option.map_eq_some_iff.1 hs
    exact ⟨h.unchanged c.clock none, hquiet rfl trivial⟩

theorem Inv.run (events : List PoolEvent) (c : MemoryPool) (h : Inv c) (hr : c.run events = some c') :
    c'.Safe ↔ c.Safe ∧ c.AllSettled events := by
  induction events generalizing c with
  | nil =>
    cases hr
    exact ⟨fun hsafe => ⟨hsafe, trivial⟩, fun hsafe => hsafe.1⟩
  | cons event events ih =>
    obtain ⟨c₁, hs, hr⟩ := Option.bind_eq_some_iff.1 hr
    obtain ⟨hi, hiff⟩ := h.step event hs
    rw [ih c₁ hi hr, hiff, AllSettled, and_assoc]
    apply and_congr_right
    intro _
    apply and_congr_right
    intro _
    constructor
    · intro hall c₂ hs₂
      rw [hs] at hs₂
      cases hs₂
      exact hall
    · intro hall
      exact hall c₁ hs

/-- No live block is ever released, exactly in the runs whose look-ups are all settled. -/
theorem run_safe_iff (events : List PoolEvent) (h : MemoryPool.run {} events = some c) :
    c.Safe ↔ AllSettled {} events := by
  rw [Inv.run events {} inv_start h]
  exact and_iff_right fun r hr => (nomatch hr)

/-- An input buffer lives on while its thread looks up nothing for longer than the idle time. -/
def idleConnection : List PoolEvent :=
  [.create 1 0, .allocate 1, .tick 61, .gcStart 61 60, .gcCheck, .gcMark, .gcEnd, .lookUp 1, .stamp 1 61]

theorem idleConnection_unsafe : ∃ c, MemoryPool.run {} idleConnection = some c ∧ ¬c.Safe := by
  refine ⟨_, rfl, fun hsafe => ?_⟩
  have hlive := hsafe (1, {0}) (List.mem_cons_self ..)
  simp at hlive

/-- The same, with the block given back in time. -/
def closedConnection : List PoolEvent :=
  [.create 1 0, .allocate 1, .tick 61, .gcStart 61 60, .gcCheck, .gcMark, .gcEnd, .deallocate 1 0, .lookUp 1, .tick 62,
    .stamp 1 61]

theorem closedConnection_settled : AllSettled {} closedConnection := by
  apply (run_safe_iff closedConnection rfl).1
  intro r hr
  have hr : r = (1, Finset.erase {0} 0) := List.mem_singleton.1 hr
  rw [hr]
  rfl

end MemoryPool

end Hical
