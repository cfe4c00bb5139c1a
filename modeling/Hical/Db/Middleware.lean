import Hical.Db.Ownership
import Hical.Lib.Log

namespace Hical.Db
open Effect Ledger

structure DbMiddlewareOptions where
  autoTransaction : Bool := false
  injectPool : Bool := true

def hPoolKey : String := "hical.db.pool"

def hConnKey : String := "hical.db.conn"

/-- What the middleware puts into the attributes of a request. -/
inductive Attribute where
  | conn (conn : Nat)
  | pool

/-- What the middleware calls. The state is the pool beside the request and the rest of the world, and
whatever is awaited may change all of it. -/
structure Database (W ε : Type) where
  acquire : Eff (Pool × W) ε Nat
  beginTransaction : Nat → Eff (Pool × W) ε Unit
  commit : Nat → Eff (Pool × W) ε Unit
  rollback : Nat → Eff (Pool × W) ε Unit
  setAttribute : String → Attribute → W → W

/-- A call that the middleware made, how it ended, and whether the connection was in a transaction
then. -/
inductive Call (ε : Type) where
  | acquire (result : Except ε Nat)
  | beginTransaction (conn : Nat) (result : Except ε Unit)
  | next (result : Except ε Unit) (inTransaction : Bool)
  | commit (conn : Nat) (result : Except ε Unit) (inTransaction : Bool)
  | rollback (conn : Nat) (result : Except ε Unit)
  | release (conn : Nat) (inTransaction : Bool)

section Middleware
variable {W ε ρ : Type} (db : Database W ε) (opts : DbMiddlewareOptions) (i : Nat)
  (next : Eff (Pool × W) ε ρ)

def setAttribute (key : String) (value : Attribute) : Eff ((Pool × W) × List (Call ε)) ε Unit :=
  modify fun s => ((s.1.1, db.setAttribute key value s.1.2), s.2)

/-- `pool->release(conn)` in the task of the middleware. -/
def releaseConn (conn : Nat) : Eff ((Pool × W) × List (Call ε)) ε Unit :=
  modify fun s =>
    ((s.1.1.release i conn, s.1.2), s.2 ++ [.release conn (s.1.1.inTransaction conn)])

def runChain (conn : Nat) : Eff ((Pool × W) × List (Call ε)) ε ρ := do
  let res ← next.logged fun r s => .next (r.map fun _ => ()) (s.1.inTransaction conn)
  let s ← get
  if opts.autoTransaction && s.1.1.inTransaction conn then
    (db.commit conn).logged fun r s => .commit conn r (s.1.inTransaction conn)
  pure res

/-- The release, and the exception thrown again. -/
def handBack (conn : Nat) (result : Except ε ρ) : Eff ((Pool × W) × List (Call ε)) ε ρ := do
  releaseConn i conn
  match result with
  | .ok res => pure res
  | .error e => throw e

/-- What comes behind the block. -/
def finish (conn : Nat) (result : Except ε ρ) : Eff ((Pool × W) × List (Call ε)) ε ρ := do
  let s ← get
  if !result.isOk && s.1.1.inTransaction conn then
    let _ ← ((db.rollback conn).logged fun r _ => .rollback conn r).attempt
  handBack i conn result

/-- The handler of `makeDbMiddleware`, run by the task `i` of the pool. -/
def makeDbMiddleware : Eff ((Pool × W) × List (Call ε)) ε ρ := do
  let conn ← db.acquire.logged fun r _ => .acquire r
  setAttribute db hConnKey (.conn conn)
  if opts.injectPool then
    setAttribute db hPoolKey .pool
  if opts.autoTransaction then
    (db.beginTransaction conn).logged fun r _ => .beginTransaction conn r
  let result ← (runChain db opts next conn).attempt
  finish db i conn result

end Middleware

section Balance
variable {ε ρ : Type}

def Call.acquired : Call ε → Option Nat
  | .acquire (.ok conn) => some conn
  | _ => none

def Call.released : Call ε → Option Nat
  | .release conn _ => some conn
  | _ => none

/-- The transaction was committed or its rollback attempted, or there was none when the chain or the
commit was over. -/
def Settled (conn : Nat) (before : List (Call ε)) : Prop :=
  (∃ t, .commit conn (.ok ()) t ∈ before) ∨ (∃ r, .rollback conn r ∈ before) ∨
    (∃ r, .next r false ∈ before) ∨ ∃ r, .commit conn r false ∈ before

/-- What must have been called before a call. A connection that is released inside its transaction is
rolled back by the pool. -/
def Allowed (before : List (Call ε)) : Call ε → Prop
  | .commit _ _ _ => ∃ t, .next (.ok ()) t ∈ before
  | .release conn false => Settled conn before
  | _ => True

def Orderly (before : List (Call ε)) : List (Call ε) → Prop
  | [] => True
  | call :: after => Allowed before call ∧ Orderly (before ++ [call]) after

/-- Every connection acquired is released once and no other is, a commit comes behind a chain that
returned, what is not committed is rolled back, and the exception of the chain or of the commit comes
out. -/
structure Balanced (log : List (Call ε)) (result : Except ε ρ) : Prop where
  released : log.filterMap Call.released = log.filterMap Call.acquired
  orderly : Orderly [] log
  rethrown : ∀ e, (∃ t, Call.next (.error e) t ∈ log) ∨ (∃ conn t, Call.commit conn (.error e) t ∈ log) →
    result = .error e

end Balance

section Runs
variable {W ε ρ : Type} {db : Database W ε} {opts : DbMiddlewareOptions} {i : Nat}
  {next : Eff (Pool × W) ε ρ}

/-- How the block that is tried ends, with the calls it made and whether the connection is in a
transaction then. -/
inductive ChainRan (auto : Bool) (conn : Nat) : Except ε ρ → Bool → List (Call ε) → Prop where
  | threw (e : ε) (t : Bool) : ChainRan auto conn (.error e) t [.next (.error e) t]
  | returned (res : ρ) (t : Bool) (h : (auto && t) = false) :
      ChainRan auto conn (.ok res) t [.next (.ok ()) t]
  | committed (res : ρ) (t : Bool) :
      ChainRan auto conn (.ok res) t [.next (.ok ()) true, .commit conn (.ok ()) t]
  | notCommitted (e : ε) (t : Bool) :
      ChainRan auto conn (.error e) t [.next (.ok ()) true, .commit conn (.error e) t]

theorem exec_runChain (db : Database W ε) (opts : DbMiddlewareOptions) (next : Eff (Pool × W) ε ρ)
    (conn : Nat) (s : Pool × W) (log : List (Call ε)) :
    ∃ r s' l, (runChain db opts next conn).exec (s, log) = (r, s', log ++ l) ∧
      ChainRan opts.autoTransaction conn r (s'.1.inTransaction conn) l := by
  rw [runChain, exec_bind, exec_logged]
  rcases hn : next.exec s with ⟨_ | res, s₁⟩
  · exact ⟨_, _, _, rfl, .threw _ _⟩
  · dsimp only
    rw [exec_bind, exec_get]
    dsimp only
    cases ht : opts.autoTransaction && s₁.1.inTransaction conn with
    | false =>
      rw [if_neg Bool.false_ne_true]
      exact ⟨_, _, _, rfl, .returned res _ ht⟩
    | true =>
      rw [if_pos rfl, exec_bind, exec_logged]
      have hin : s₁.1.inTransaction conn = true := (Bool.and_eq_true_iff.1 ht).2
      rw [List.append_assoc, hin]
      rcases (db.commit conn).exec s₁ with ⟨_ | _, s₂⟩
      · exact ⟨_, _, _, rfl, .notCommitted _ _⟩
      · exact ⟨_, _, _, rfl, .committed res _⟩

theorem exec_handBack (conn : Nat) (result : Except ε ρ) (s : (Pool × W) × List (Call ε)) :
    (handBack i conn result).exec s = (result, (s.1.1.release i conn, s.1.2),
      s.2 ++ [.release conn (s.1.1.inTransaction conn)]) := by
  cases result <;> rfl

theorem exec_finish (db : Database W ε) (i : Nat) (conn : Nat) (result : Except ε ρ) (s : Pool × W) (log : List (Call ε)) :
    ∃ s' l, (finish db i conn result).exec (s, log) = (result, s', log ++ l) ∧
      ((∃ r t, l = [.rollback conn r, .release conn t]) ∨
        l = [.release conn (s.1.inTransaction conn)] ∧
          (!result.isOk && s.1.inTransaction conn) = false) := by
  rw [finish, exec_bind, exec_get]
  dsimp only
  cases ht : !result.isOk && s.1.inTransaction conn with
  | false =>
    rw [if_neg Bool.false_ne_true]
    exact ⟨_, _, exec_handBack _ _ _, .inr ⟨rfl, rfl⟩⟩
  | true =>
    rw [if_pos rfl, exec_bind, exec_attempt, exec_logged]
    rcases (db.rollback conn).exec s with ⟨r, s₁⟩
    dsimp only
    rw [exec_handBack]
    exact ⟨_, [.rollback conn r, .release conn (s₁.1.inTransaction conn)],
      congrArg (fun l => (result, _, l)) (List.append_assoc ..), .inl ⟨_, _, rfl⟩⟩

/-- Whatever the block and what comes behind it did, the calls are in order from behind an `acquire`
of the connection on, and the exception comes out. -/
theorem orderly_chain {conn : Nat} {result : Except ε ρ} {t : Bool} {l l' before : List (Call ε)}
    (hl : ChainRan opts.autoTransaction conn result t l)
    (hl' : (∃ r t', l' = [.rollback conn r, .release conn t']) ∨
      l' = [.release conn t] ∧ (!result.isOk && t) = false) : Orderly before (l ++ l') := by
  obtain ⟨r, t', rfl⟩ | ⟨rfl, ht⟩ := hl'
  · cases t' <;> cases hl <;> simp [Orderly, Allowed, Settled]
  · cases t <;> cases hl <;> simp_all [Orderly, Allowed, Settled, Except.isOk, Except.toBool]

theorem released_chain {conn : Nat} {result : Except ε ρ} {t : Bool} {l l' : List (Call ε)}
    (hl : ChainRan opts.autoTransaction conn result t l)
    (hl' : (∃ r t', l' = [.rollback conn r, .release conn t']) ∨
      l' = [.release conn t] ∧ (!result.isOk && t) = false) :
    (l ++ l').filterMap Call.released = [conn] ∧ (l ++ l').filterMap Call.acquired = [] := by
  obtain ⟨r, t', rfl⟩ | ⟨rfl, ht⟩ := hl' <;> cases hl <;> exact ⟨rfl, rfl⟩

theorem rethrown_chain {conn : Nat} {result : Except ε ρ} {t : Bool} {l l' : List (Call ε)}
    (hl : ChainRan opts.autoTransaction conn result t l)
    (hl' : (∃ r t', l' = [.rollback conn r, .release conn t']) ∨
      l' = [.release conn t] ∧ (!result.isOk && t) = false) (e : ε)
    (he : (∃ t, Call.next (.error e) t ∈ l ++ l') ∨
      ∃ c t, Call.commit c (.error e) t ∈ l ++ l') : result = .error e := by
  obtain ⟨r, t', rfl⟩ | ⟨rfl, ht⟩ := hl' <;> cases hl <;> simp_all

/-- The request behind the injection. -/
def injected (db : Database W ε) (opts : DbMiddlewareOptions) (conn : Nat) (s : Pool × W) : Pool × W :=
  let w := db.setAttribute hConnKey (.conn conn) s.2
  (s.1, if opts.injectPool then db.setAttribute hPoolKey .pool w else w)

def Begins (db : Database W ε) (opts : DbMiddlewareOptions) (s : Pool × W) : Prop :=
  opts.autoTransaction = true → ∀ conn s', db.acquire.exec s = (.ok conn, s') →
    ((db.beginTransaction conn).exec (injected db opts conn s')).1 = .ok ()

theorem exec_acquired {s s' : Pool × W} {conn : Nat} (h : db.acquire.exec s = (.ok conn, s')) :
    (makeDbMiddleware db opts i next).exec (s, []) = ((do
      if opts.autoTransaction then
        (db.beginTransaction conn).logged fun r _ => .beginTransaction conn r
      let result ← (runChain db opts next conn).attempt
      finish db i conn result) : Eff ((Pool × W) × List (Call ε)) ε ρ).exec
        (injected db opts conn s', [.acquire (.ok conn)]) := by
  rw [makeDbMiddleware, exec_bind, exec_logged, h]
  dsimp only
  rw [exec_bind, setAttribute, exec_modify, injected]
  cases opts.injectPool <;> rfl

theorem balanced_chain {conn : Nat} {before : List (Call ε)} (s : Pool × W)
    (ha : before.filterMap Call.acquired = [conn]) (hr : before.filterMap Call.released = [])
    (ho : ∀ l : List (Call ε), Orderly before l → Orderly [] (before ++ l))
    (hn : ∀ e, (∀ t, Call.next (.error e) t ∉ before) ∧ ∀ c t, Call.commit c (.error e) t ∉ before) :
    let done := ((do
      let result ← (runChain db opts next conn).attempt
      finish db i conn result) : Eff ((Pool × W) × List (Call ε)) ε ρ).exec (s, before)
    Balanced done.2.2 done.1 := by
  dsimp only
  rw [exec_bind, exec_attempt]
  obtain ⟨r, s₁, l, hrun, hl⟩ := exec_runChain db opts next conn s before
  rw [hrun]
  dsimp only
  obtain ⟨s₂, l', hfin, hl'⟩ := exec_finish db i conn r s₁ (before ++ l)
  rw [hfin, List.append_assoc]
  obtain ⟨hreleased, hacquired⟩ := released_chain hl hl'
  refine ⟨?_, ho _ (orderly_chain hl hl'), ?_⟩
  · dsimp only
    rw [List.filterMap_append (l := before), List.filterMap_append (l := before), hreleased, hacquired, ha, hr]
    rfl
  · intro e he
    apply rethrown_chain hl hl' e
    obtain ⟨t, ht⟩ | ⟨c, t, ht⟩ := he
    · exact .inl ⟨t, (List.mem_append.1 ht).resolve_left ((hn e).1 t)⟩
    · exact .inr ⟨c, t, (List.mem_append.1 ht).resolve_left ((hn e).2 c t)⟩

theorem balanced_of_begins {s : Pool × W} (h : Begins db opts s) :
    Balanced ((makeDbMiddleware db opts i next).exec (s, [])).2.2
      ((makeDbMiddleware db opts i next).exec (s, [])).1 := by
  rcases ha : db.acquire.exec s with ⟨e | conn, s'⟩
  · rw [makeDbMiddleware, exec_bind, exec_logged, ha]
    exact ⟨rfl, ⟨trivial, trivial⟩, fun e he => by simp at he⟩
  · rw [exec_acquired ha]
    cases hauto : opts.autoTransaction with
    | false =>
      rw [if_neg Bool.false_ne_true]
      exact balanced_chain _ rfl rfl (fun l hl => ⟨trivial, hl⟩) fun e => by simp
    | true =>
      have hb := h hauto conn s' ha
      rw [if_pos rfl, exec_bind, exec_logged]
      dsimp only
      rw [hb]
      exact balanced_chain _ rfl rfl (fun l hl => ⟨trivial, trivial, hl⟩) fun e => by simp

theorem begins_of_balanced {s : Pool × W}
    (h : Balanced ((makeDbMiddleware db opts i next).exec (s, [])).2.2
      ((makeDbMiddleware db opts i next).exec (s, [])).1) : Begins db opts s := by
  intro hauto conn s' ha
  rw [exec_acquired ha, hauto, if_pos rfl, exec_bind, exec_logged] at h
  rcases hb : (db.beginTransaction conn).exec (injected db opts conn s') with ⟨e | u, s''⟩
  · rw [hb] at h
    cases h.released
  · rfl

end Runs

section Rollback
variable {p p' : Pool} {i j c : Nat}

/-- The task rolls the connection back. -/
def Rolling (i c : Nat) (p : Pool) : Prop := p.tasks[i]? = some (.rollingBack c)

theorem Rolling.setTask (h : Rolling i c p) (hj : p.tasks[j]? = some t) (ht : t ≠ .rollingBack c)
    (t' : Task) : Rolling i c (p.setTask j t') := by
  have hne : j ≠ i := by
    rintro rfl
    exact ht (Option.some.inj (hj.symm.trans h))
  rw [Rolling, Pool.setTask, List.getElem?_set_ne hne]
  exact h

theorem Rolling.fill (h : Rolling i c p) (w conn : Nat) : Rolling i c (p.fill w conn) := by
  rw [Pool.fill]
  split
  · next hw => exact h.setTask hw Task.noConfusion _
  · next hw => exact h.setTask hw Task.noConfusion _
  · exact h

theorem Rolling.decrementGuarded (h : Rolling i c p) : Rolling i c p.decrementGuarded := by
  rw [Pool.decrementGuarded]
  split <;> exact h

theorem Rolling.returnIdle (h : Rolling i c p) (conn : Nat) : Rolling i c (p.returnIdle conn) := by
  have hd := h.decrementGuarded
  rw [Pool.returnIdle]
  split
  · apply Rolling.fill
    exact hd
  · split <;> exact hd

theorem Rolling.release (h : Rolling i c p) (hj : p.tasks[j]? = some t) (ht : t ≠ .rollingBack c)
    (conn : Nat) : Rolling i c (p.release j conn) := by
  rw [Pool.release]
  split
  · exact h.setTask hj ht _
  · exact (h.setTask hj ht _).returnIdle conn

theorem Rolling.lookUp (h : Rolling i c p) (hj : p.tasks[j]? = some .entered) (config : DbConfig)
    (recent : Bool) : Rolling i c (p.lookUp config j recent) := by
  rw [Pool.lookUp]
  split
  · exact Rolling.setTask h hj Task.noConfusion _
  · split <;> exact Rolling.setTask h hj Task.noConfusion _

theorem Rolling.cleanUp (h : Rolling i c p) (hj : p.tasks[j]? = some (.timedOut slot)) :
    Rolling i c (p.cleanUp j slot) := by
  rw [Pool.cleanUp.eq_def]
  cases slot with
  | none => exact Rolling.setTask h hj Task.noConfusion _
  | some conn =>
    dsimp only
    split
    · exact Rolling.release (p := { p with waiters := p.waiters.filter (· ≠ j) }) h hj Task.noConfusion conn
    · exact Rolling.setTask h hj Task.noConfusion _

theorem Rolling.rolledBack (h : Rolling i c p) (hne : j ≠ i) (conn : Nat) : Rolling i c (p.rolledBack j conn) := by
  have hset : Rolling i c ({ p with
      inTransaction := Function.update p.inTransaction conn false }.setTask j .finished) := by
    rw [Rolling, Pool.setTask, List.getElem?_set_ne hne]
    exact h
  have hd := hset.decrementGuarded
  rw [Pool.rolledBack]
  split
  · exact hd
  · split
    · apply Rolling.fill
      exact hd
    · exact hd

/-- Only the end of the rollback ends the task. -/
theorem Rolling.step (h : Rolling i c p) (hs : Db.step config p label = some p')
    (hl : ∀ ok, label ≠ .rolledBack i ok) : Rolling i c p' := by
  cases step_does hs with
  | acquire => exact (List.getElem?_append_left (List.getElem?_eq_some_iff.1 h).1).trans h
  | lock hj => exact h.lookUp hj config _
  | pinged hj | timedOut hj => exact h.setTask hj nofun _
  | @pingFailed j recent conn hj =>
    have hset : Rolling i c ((p.drop [conn] .failedPing).setTask j .entered).decrement :=
      Rolling.setTask h hj nofun _
    refine hset.lookUp ?_ config recent
    exact List.getElem?_set_self (List.getElem?_eq_some_iff.1 hj).1
  | created hj | notCreated hj | handed hj => exact Rolling.setTask h hj nofun _
  | cleanUp hj => exact h.cleanUp hj
  | release hj => exact h.release hj nofun _
  | @rolledBack j conn hj =>
    apply h.rolledBack _ conn
    rintro rfl
    exact hl true rfl
  | @rollbackFailed j conn hj =>
    have hset : Rolling i c ((p.drop [conn] .failedRollback).setTask j .finished) := by
      rw [Rolling, Pool.setTask, List.getElem?_set_ne fun hji => hl false (by rw [hji])]
      exact h
    exact hset.decrementGuarded
  | _ => exact h

theorem rollback_before_lent (hp : Reaches config C (start n) p) (hi : p.tasks[i]? = some (.holding c))
    (ht : p.inTransaction c = true)
    (hr : Reaches config (fun _ label => ∀ ok, label ≠ .rolledBack i ok) (p.release i c) p') :
    c ∉ p'.idle ∧ ∀ j t, p'.tasks[j]? = some t → t.conn = some c → j = i ∧ t = .rollingBack c := by
  have hok : Ok (p.release i c) := (ok_reaches hp).release hi
  have hstart : Rolling i c (p.release i c) := by
    rw [Pool.release, if_pos ht]
    exact List.getElem?_set_self (List.getElem?_eq_some_iff.1 hi).1
  have hend : Ok p' ∧ Rolling i c p' := by
    induction hr with
    | start => exact ⟨hok, hstart⟩
    | step _ hc hs ih => exact ⟨ih.1.step hs, ih.2.step hs hc⟩
  obtain ⟨hok', hroll⟩ := hend
  have howned := hok'.owned c
  have hle : (if c < p'.made then 1 else 0) ≤ 1 := by split <;> omega
  have hhas : Task.has c (.rollingBack c) = 1 := if_pos rfl
  have htotal : Task.has c (.rollingBack c) ≤ total (Task.has c) p'.tasks := le_total hroll
  refine ⟨fun hmem => ?_, fun j t hj hconn => ?_⟩
  · have := List.count_pos_iff.2 hmem
    omega
  · have hone : Task.has c t = 1 := if_pos hconn
    have hji : j = i := by
      by_contra hne
      have hzero : Task.has c t = 0 := only_holder (by omega) hroll hhas hj hne
      omega
    subst hji
    exact ⟨rfl, Option.some.inj (hj.symm.trans hroll)⟩

end Rollback

/-- The middleware balances what it acquires, and no connection is lent before the rollback that its
release begins is over, if and only if the transaction can be begun. -/
theorem makeDbMiddleware_balanced_iff {W ε ρ : Type} (db : Database W ε) (opts : DbMiddlewareOptions)
    (i : Nat) (next : Eff (Pool × W) ε ρ) (s : Pool × W) :
    (Balanced ((makeDbMiddleware db opts i next).exec (s, [])).2.2
      ((makeDbMiddleware db opts i next).exec (s, [])).1 ↔ Begins db opts s) ∧
    ∀ config C n p c p', Reaches config C (start n) p → p.tasks[i]? = some (.holding c) →
      p.inTransaction c = true →
      Reaches config (fun _ label => ∀ ok, label ≠ .rolledBack i ok) (p.release i c) p' →
      c ∉ p'.idle ∧ ∀ j t, p'.tasks[j]? = some t → t.conn = some c → j = i ∧ t = .rollingBack c :=
  ⟨⟨begins_of_balanced, balanced_of_begins⟩,
    fun _ _ _ _ _ _ hp hi ht hr => rollback_before_lent hp hi ht hr⟩

section Examples

def noBegin : Database Unit Unit where
  acquire := pure 0
  beginTransaction _ := throw ()
  commit _ := pure ()
  rollback _ := pure ()
  setAttribute _ _ w := w

theorem noBegin_not_balanced :
    ¬ Balanced ((makeDbMiddleware noBegin { autoTransaction := true } 0
        (pure () : Eff (Pool × Unit) Unit Unit)).exec (({}, ()), [])).2.2
      ((makeDbMiddleware noBegin { autoTransaction := true } 0
        (pure () : Eff (Pool × Unit) Unit Unit)).exec (({}, ()), [])).1 := by
  intro h
  cases h.released

/-- The connection 0 in the hands of the task 0, inside a transaction. -/
def lentOnce : Pool :=
  { tasks := [.holding 0], activeCount := 1, made := 1
    inTransaction := Function.update (fun _ => false) 0 true }

theorem reaches_lentOnce :
    Reaches ⟨1, 1⟩ (fun _ _ => True) (start 1) lentOnce := by
  have hacquire : step ⟨1, 1⟩ (start 1) .acquire = some { start 1 with tasks := [.entered] } := rfl
  have hlock : step ⟨1, 1⟩ { start 1 with tasks := [.entered] } (.lock 0 true) =
      some { lentOnce with inTransaction := fun _ => false } := rfl
  have hset : step ⟨1, 1⟩ { lentOnce with inTransaction := fun _ => false } (.setTransaction 0 true) =
      some lentOnce := rfl
  exact .step (.step (.step .start trivial hacquire) trivial hlock) trivial hset

def willingBegin : Database Unit Unit :=
  { noBegin with
    beginTransaction _ := Eff.of fun s =>
      (.ok (), { s.1 with inTransaction := Function.update s.1.inTransaction 0 true }, s.2) }

/-- The connection is released inside its transaction, and another caller comes to wait for it. -/
def wanted : Pool :=
  { lentOnce with tasks := [.rollingBack 0, .waiting none], waiters := [1] }

theorem reaches_wanted : Reaches ⟨1, 1⟩ (fun _ label => ∀ ok, label ≠ .rolledBack 0 ok) (lentOnce.release 0 0)
    wanted := by
  have hacquire : step ⟨1, 1⟩ (lentOnce.release 0 0) .acquire =
      some { lentOnce with tasks := [.rollingBack 0, .entered] } := rfl
  have hlock : step ⟨1, 1⟩ { lentOnce with tasks := [.rollingBack 0, .entered] } (.lock 1 true) = some wanted := rfl
  have hfree : ∀ ok, Label.acquire ≠ .rolledBack 0 ok := nofun
  have hfree' : ∀ ok, Label.lock 1 true ≠ .rolledBack 0 ok := nofun
  exact .step (.step .start hfree hacquire) hfree' hlock

/-- A handler that throws inside its transaction, and the pool behind the release. -/
theorem makeDbMiddleware_balanced_iff_wanted :
    Balanced ((makeDbMiddleware willingBegin { autoTransaction := true } 0
        (throw () : Eff (Pool × Unit) Unit Unit)).exec ((lentOnce, ()), [])).2.2
      ((makeDbMiddleware willingBegin { autoTransaction := true } 0
        (throw () : Eff (Pool × Unit) Unit Unit)).exec ((lentOnce, ()), [])).1 ∧
    0 ∉ wanted.idle ∧ ∀ j t, wanted.tasks[j]? = some t → t.conn = some 0 → j = 0 ∧ t = .rollingBack 0 := by
  obtain ⟨hbalanced, hlent⟩ := makeDbMiddleware_balanced_iff willingBegin { autoTransaction := true } 0
    (throw () : Eff (Pool × Unit) Unit Unit) (lentOnce, ())
  exact ⟨hbalanced.2 fun _ _ _ _ => rfl, hlent ⟨1, 1⟩ _ 1 _ 0 _ reaches_lentOnce rfl rfl reaches_wanted⟩

end Examples

end Hical.Db
