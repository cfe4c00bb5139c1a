import Hical.Db.Ownership

namespace Hical.Db
open Ledger

namespace Task

/-- A connection was put into the slot and not taken out yet. -/
def handed : Task → Nat
  | waiting (some _) => 1
  | timedOut (some _) => 1
  | _ => 0

/-- The task has a connection or one is being made for it. -/
def live : Task → Nat
  | creating => 1
  | t => t.conn.toList.length

theorem live_eq (t : Task) : t.live = t.active + t.handed := by
  rcases t with _ | _ | _ | ⟨_ | _⟩ | ⟨_ | _⟩ | _ | _ | _ <;> rfl

end Task

namespace Checker

def making : Checker → Nat
  | replenishing _ true => 1
  | _ => 0

def conns : Checker → Nat
  | checking todo alive _ _ => todo.length + alive.length
  | _ => 0

end Checker

namespace Pool

/-- The connections that there are: idle, with a task or being made for one, or with the health
checker or being made for it. -/
def live (p : Pool) : Nat :=
  p.idle.length + total Task.live p.tasks + p.checker.conns + p.checker.making

/-- The connections that neither `activeCount_` nor `idle_` tells of: those in the slots, and the one
that the health checker is making. -/
def uncounted (p : Pool) : Nat := total Task.handed p.tasks + p.checker.making

/-- What the pool counts and what it does not. -/
def weight (p : Pool) : Nat := p.activeCount + p.idle.length + p.uncounted

end Pool

/-- A connection begins to be made only while there is room for it beside those that are not
counted. -/
def Spaced (config : DbConfig) (p : Pool) : Label → Prop
  | .lock _ _ => p.idle.any p.isAlive = true ∨ config.maxConnections ≤ p.activeCount ∨
      p.activeCount + p.uncounted < config.maxConnections
  | .pinged _ false _ => p.idle.any p.isAlive = true ∨
      config.maxConnections ≤ p.activeCount - 1 ∨
      p.activeCount - 1 + p.uncounted < config.maxConnections
  | .replenish =>
    match p.checker with
    | .replenishing (_ + 1) false => p.shutdown = true ∨
        p.activeCount + p.idle.length + p.uncounted < config.maxConnections
    | _ => True
  | _ => True

section Weight
variable {p : Pool} {t t' : Task} {i : Nat}

theorem weight_setTask (hi : p.tasks[i]? = some t) (t' : Task) :
    (p.setTask i t').weight + t.handed = p.weight + t'.handed := by
  have := total_set (f := Task.handed) hi t'
  rw [Pool.weight, Pool.weight, Pool.uncounted, Pool.uncounted, Pool.setTask]
  dsimp only
  omega

theorem weight_fill (p : Pool) (w c : Nat) : (p.fill w c).weight ≤ p.weight + 1 := by
  rw [Pool.fill]
  split
  · next h =>
    have := weight_setTask h (.waiting (some c))
    exact Nat.le_of_eq this
  · next h =>
    have := weight_setTask h (.timedOut (some c))
    exact Nat.le_of_eq this
  · exact Nat.le_succ _

theorem weight_handOver (p : Pool) (waiters : List Nat) (w c : Nat) :
    (Pool.fill { p with waiters := waiters } w c).weight ≤ p.weight + 1 :=
  weight_fill { p with waiters := waiters } w c

theorem weight_decrementGuarded (h : 0 < p.activeCount) : p.decrementGuarded.weight + 1 = p.weight := by
  rw [Pool.decrementGuarded, if_pos h, Pool.weight, Pool.weight]
  change p.activeCount - 1 + p.idle.length + p.uncounted + 1 = _
  omega

theorem weight_decrement (h : 0 < p.activeCount) : p.decrement.weight + 1 = p.weight := by
  rw [Pool.decrement, if_neg (Nat.ne_of_gt h), Pool.weight, Pool.weight]
  change p.activeCount - 1 + p.idle.length + p.uncounted + 1 = _
  omega

theorem weight_push (p : Pool) (c : Nat) : Pool.weight { p with idle := c :: p.idle } = p.weight + 1 := by
  rw [Pool.weight, Pool.weight]
  change p.activeCount + (p.idle.length + 1) + p.uncounted = _
  omega

theorem weight_returnIdle (c : Nat) (h : 0 < p.activeCount) : (p.returnIdle c).weight ≤ p.weight := by
  have hd := weight_decrementGuarded h
  rw [Pool.returnIdle]
  split
  · next w waiters _ =>
    have := weight_handOver p.decrementGuarded waiters w c
    omega
  · split
    · have : (p.decrementGuarded.drop [c] .shutdown).weight = p.decrementGuarded.weight := rfl
      omega
    · have := weight_push p.decrementGuarded c
      omega

theorem Ok.active_pos (h : Ok p) (hi : p.tasks[i]? = some t) (ht : 0 < t.active) :
    0 < p.activeCount := by
  have := le_total (f := Task.active) hi
  have := h.counted
  omega

theorem weight_release (h : Ok p) (hi : p.tasks[i]? = some (.holding c)) :
    (p.release i c).weight ≤ p.weight := by
  have hs := weight_setTask hi
  rw [Pool.release]
  split
  · exact Nat.le_of_eq (hs (.rollingBack c))
  · have hf := hs .finished
    have hr := weight_returnIdle (p := p.setTask i .finished) c (h.active_pos hi Nat.one_pos)
    have h₁ : (Task.holding c).handed = 0 := rfl
    have h₂ : Task.finished.handed = 0 := rfl
    omega

theorem weight_rolledBack (h : Ok p) (hi : p.tasks[i]? = some (.rollingBack c)) :
    (p.rolledBack i c).weight ≤ p.weight := by
  have hs : (Pool.setTask { p with inTransaction := Function.update p.inTransaction c false } i
      .finished).weight = p.weight := weight_setTask hi .finished
  have hd := weight_decrementGuarded (p := Pool.setTask
    { p with inTransaction := Function.update p.inTransaction c false } i .finished)
    (h.active_pos hi Nat.one_pos)
  rw [Pool.rolledBack]
  generalize (Pool.setTask { p with inTransaction := Function.update p.inTransaction c false } i
      .finished).decrementGuarded = q at hd
  split
  · have : (q.drop [c] .shutdown).weight = q.weight := rfl
    omega
  · split
    · next w waiters _ =>
      have := weight_handOver q waiters w c
      omega
    · have := weight_push q c
      omega

theorem popIdle_none (isAlive : Nat → Bool) (l : List Nat)
    (h : (Pool.popIdle isAlive l).2.1 = none) :
    l.any isAlive = false ∧ (Pool.popIdle isAlive l).2.2 = [] := by
  induction l with
  | nil => exact ⟨rfl, rfl⟩
  | cons c l ih =>
    rw [Pool.popIdle] at h ⊢
    split at h
    · cases h
    · next hc =>
      rw [if_neg hc]
      obtain ⟨h₁, h₂⟩ := ih h
      refine ⟨?_, h₂⟩
      rw [List.any_cons, h₁, Bool.eq_false_iff.2 hc]
      rfl

theorem weight_lookUp (hi : p.tasks[i]? = some .entered) (config : DbConfig) (recent : Bool)
    (hw : p.weight ≤ config.maxConnections)
    (hc : p.idle.any p.isAlive = true ∨ config.maxConnections ≤ p.activeCount ∨
      p.activeCount + p.uncounted < config.maxConnections) :
    (p.lookUp config i recent).weight ≤ config.maxConnections := by
  have hnone := popIdle_none p.isAlive p.idle
  obtain ⟨hl, -⟩ := OkWith.popIdle_eq p.isAlive p.idle
  rw [Pool.lookUp]
  generalize Pool.popIdle p.isAlive p.idle = found at hl hnone
  obtain ⟨dead, found, rest⟩ := found
  dsimp only at hl hnone ⊢
  rw [Pool.weight] at hw
  have hlen := congrArg List.length hl
  rw [List.length_append, List.length_append] at hlen
  have hset : ∀ (q : Pool) (t : Task), q.tasks = p.tasks → t.handed = 0 →
      (q.setTask i t).weight = q.weight := by
    intro q t hq ht
    have := weight_setTask (p := q) (hq ▸ hi) t
    have hz : Task.entered.handed = 0 := rfl
    omega
  cases found with
  | some c =>
    dsimp only
    have ht : (if recent then Task.holding c else Task.pinging c).handed = 0 := by
      cases recent with
      | true => rfl
      | false => rfl
    refine Nat.le_trans (Nat.le_of_eq (hset _ _ rfl ht)) ?_
    rw [Pool.weight]
    change p.activeCount + 1 + rest.length + p.uncounted ≤ _
    have : (some c).toList.length = 1 := rfl
    omega
  | none =>
    obtain ⟨hdead, hrest⟩ := hnone rfl
    subst hrest
    dsimp only
    split
    · next hroom =>
      refine Nat.le_trans (Nat.le_of_eq (hset _ _ rfl rfl)) ?_
      rw [Pool.weight]
      change p.activeCount + 0 < config.maxConnections at hroom
      change p.activeCount + 1 + 0 + p.uncounted ≤ _
      rw [hdead] at hc
      rcases hc with hc | hc | hc
      · cases hc
      · omega
      · omega
    · refine Nat.le_trans (Nat.le_of_eq (hset _ _ rfl rfl)) ?_
      rw [Pool.weight]
      change p.activeCount + 0 + p.uncounted ≤ _
      omega

theorem weight_hold (hi : p.tasks[i]? = some t) (ht : t.handed = 1) (c : Nat) :
    (Pool.setTask { p with activeCount := p.activeCount + 1 } i (.holding c)).weight = p.weight := by
  have hs := weight_setTask (p := { p with activeCount := p.activeCount + 1 }) hi (.holding c)
  have hplus : Pool.weight { p with activeCount := p.activeCount + 1 } = p.weight + 1 := by
    rw [Pool.weight, Pool.weight]
    change p.activeCount + 1 + p.idle.length + p.uncounted = _
    omega
  rw [ht, hplus] at hs
  exact Nat.succ.inj hs

theorem weight_cleanUp (h : Ok p) (hi : p.tasks[i]? = some (.timedOut slot)) :
    (p.cleanUp i slot).weight ≤ p.weight := by
  rw [Pool.cleanUp.eq_def]
  cases slot with
  | none =>
    exact Nat.le_of_eq
      (weight_setTask (p := { p with waiters := p.waiters.filter (· ≠ i) }) hi .finished)
  | some c =>
    have hn := h.not_queued hi Task.noConfusion fun h => by cases h
    dsimp only
    rw [decide_eq_false hn, if_neg Bool.false_ne_true]
    exact Nat.le_of_eq
      (weight_hold (p := { p with waiters := p.waiters.filter (· ≠ i) }) hi rfl c)

end Weight

/-- The pool is within its limit, and the health checker has no more than it took. -/
structure Within (config : DbConfig) (p : Pool) : Prop where
  weight : p.weight ≤ config.maxConnections
  conns : p.checker.conns ≤ p.checker.size

section Steps
variable {config : DbConfig} {p p' : Pool}

theorem Within.live (h : Within config p) (hok : Ok p) : p.live ≤ config.maxConnections := by
  have h₁ : total Task.live p.tasks = total Task.active p.tasks + total Task.handed p.tasks := by
    induction p.tasks with
    | nil => rfl
    | cons t ts ih =>
      rw [total_cons, total_cons, total_cons, ih, t.live_eq]
      omega
  have h₂ := hok.counted
  have h₃ := h.weight
  have h₄ := h.conns
  rw [Pool.weight, Pool.uncounted] at h₃
  rw [Pool.live]
  omega

theorem trim_length (m : Nat) (expired : Nat → Bool) (l : List Nat) (n : Nat) :
    (Pool.trim m expired l n).1.length ≤ l.length := by
  induction l generalizing n with
  | nil => exact Nat.le_refl _
  | cons x l ih =>
    rw [Pool.trim]
    split
    · exact Nat.le_refl _
    split
    · exact Nat.le_succ_of_le (ih _)
    · exact Nat.succ_le_succ (ih _)

theorem within_tasks (h : Within config p) (hw : p'.weight ≤ config.maxConnections)
    (hc : p'.checker = p.checker) : Within config p' := by
  refine ⟨hw, ?_⟩
  rw [hc]
  exact h.conns

theorem checker_fill (p : Pool) (w c : Nat) : (p.fill w c).checker = p.checker := by
  rw [Pool.fill]
  split
  · rfl
  · rfl
  · rfl

theorem checker_decrementGuarded (p : Pool) : p.decrementGuarded.checker = p.checker := by
  rw [Pool.decrementGuarded]
  split
  · rfl
  · rfl

theorem checker_returnIdle (p : Pool) (c : Nat) : (p.returnIdle c).checker = p.checker := by
  rw [Pool.returnIdle]
  split
  · exact (checker_fill _ _ _).trans (checker_decrementGuarded p)
  · split
    · exact checker_decrementGuarded p
    · exact checker_decrementGuarded p

theorem checker_release (p : Pool) (i c : Nat) : (p.release i c).checker = p.checker := by
  rw [Pool.release]
  split
  · rfl
  · exact checker_returnIdle _ c

theorem checker_rolledBack (p : Pool) (i c : Nat) : (p.rolledBack i c).checker = p.checker := by
  rw [Pool.rolledBack]
  split
  · exact checker_decrementGuarded _
  · split
    · exact (checker_fill _ _ _).trans (checker_decrementGuarded _)
    · exact checker_decrementGuarded _

theorem checker_lookUp (config : DbConfig) (p : Pool) (i : Nat) (recent : Bool) :
    (p.lookUp config i recent).checker = p.checker := by
  rw [Pool.lookUp]
  split
  · rfl
  · split
    · rfl
    · rfl

theorem checker_cleanUp (p : Pool) (i : Nat) (slot : Option Nat) :
    (p.cleanUp i slot).checker = p.checker := by
  rw [Pool.cleanUp.eq_def]
  cases slot with
  | none => rfl
  | some c =>
    dsimp only
    split
    · exact checker_release _ i c
    · rfl

/-- The health checker puts back at most what it took. -/
theorem weight_putBack (h : Within config p) (hok : Ok p)
    (hc : p.checker = .checking todo alive size busy) (checker : Checker) (hm : checker.making = 0) :
    Pool.weight ({ p with checker := checker, idle := alive.reverse ++ p.idle }.giveBack size) ≤
      config.maxConnections := by
  have hw := h.weight
  have hcount := hok.counted
  have hconns := h.conns
  rw [hc, Checker.size] at hcount
  rw [hc, Checker.conns, Checker.size] at hconns
  have hsize : size ≤ p.activeCount := by omega
  rw [OkWith.giveBack_eq { p with checker := checker, idle := alive.reverse ++ p.idle } hsize,
    Pool.weight]
  rw [Pool.weight, Pool.uncounted, hc] at hw
  change p.activeCount - size + (alive.reverse ++ p.idle).length +
    (total Task.handed p.tasks + checker.making) ≤ _
  rw [List.length_append, List.length_reverse, hm]
  omega

theorem Within.step (h : Within config p) (hok : Ok p) (hsp : Spaced config p label)
    (hs : Db.step config p label = some p') : Within config p' := by
  have hw := h.weight
  cases step_does hs with
  | acquire =>
    refine within_tasks h (Nat.le_trans (Nat.le_of_eq ?_) hw) rfl
    rw [Pool.weight, Pool.weight, Pool.uncounted, Pool.uncounted]
    dsimp only
    rw [total_append]
    rfl
  | lock hi => exact within_tasks h (weight_lookUp hi config _ hw hsp) (checker_lookUp config p _ _)
  | pinged hi | timedOut hi => exact within_tasks h (Nat.le_trans (Nat.le_of_eq (weight_setTask hi _)) hw) rfl
  | @pingFailed i recent c hi =>
    obtain ⟨hlt, -⟩ := List.getElem?_eq_some_iff.1 hi
    have hpos := hok.active_pos hi Nat.one_pos
    have htask := weight_setTask (p := p.drop [c] .failedPing) hi .entered
    have hdec : (((p.drop [c] .failedPing).setTask i .entered).decrement).weight + 1 =
        ((p.drop [c] .failedPing).setTask i .entered).weight := weight_decrement hpos
    have hsame : (p.drop [c] .failedPing).weight = p.weight := rfl
    have h₀ : (Task.pinging c).handed = 0 := rfl
    have h₁ : Task.entered.handed = 0 := rfl
    have hun : (((p.drop [c] .failedPing).setTask i .entered).decrement).uncounted =
        p.uncounted := by
      have := total_set (f := Task.handed) hi .entered
      rw [Pool.uncounted, Pool.uncounted]
      change total Task.handed (p.tasks.set i .entered) + p.checker.making = _
      omega
    have hact : (((p.drop [c] .failedPing).setTask i .entered).decrement).activeCount =
        p.activeCount - 1 := if_neg (Nat.ne_of_gt hpos)
    refine within_tasks h (weight_lookUp (List.getElem?_set_self hlt) config recent ?_ ?_)
      (checker_lookUp config _ i recent)
    · omega
    · rw [hun, hact]
      exact hsp
  | created hi =>
    exact within_tasks h (Nat.le_trans (Nat.le_of_eq (weight_setTask (p := p.make) hi _)) hw) rfl
  | @notCreated i hi =>
    have hd := weight_decrement (hok.active_pos hi Nat.one_pos)
    have hx : (p.decrement.setTask i .finished).weight = p.decrement.weight :=
      weight_setTask (p := p.decrement) hi .finished
    exact within_tasks h (by omega) rfl
  | handed hi => exact within_tasks h (Nat.le_trans (Nat.le_of_eq (weight_hold hi rfl _)) hw) rfl
  | cleanUp hi => exact within_tasks h (Nat.le_trans (weight_cleanUp hok hi) hw) (checker_cleanUp p _ _)
  | release hi => exact within_tasks h (Nat.le_trans (weight_release hok hi) hw) (checker_release p _ _)
  | rolledBack hi =>
    exact within_tasks h (Nat.le_trans (weight_rolledBack hok hi) hw) (checker_rolledBack p _ _)
  | @rollbackFailed i c hi =>
    have hx : ((p.drop [c] .failedRollback).setTask i .finished).weight = p.weight :=
      weight_setTask (p := p.drop [c] .failedRollback) hi .finished
    have hd := weight_decrementGuarded (p := (p.drop [c] .failedRollback).setTask i .finished)
      (hok.active_pos hi Nat.one_pos)
    exact within_tasks h (by omega) (checker_decrementGuarded _)
  | setTransaction | dies | shutdown => exact ⟨h.weight, h.conns⟩
  | @trim expired kept _ hkept =>
    subst hkept
    refine within_tasks h (Nat.le_trans ?_ hw) rfl
    have hl := trim_length config.minConnections expired p.idle.reverse p.idle.length
    rw [List.length_reverse] at hl
    rw [Pool.weight, Pool.weight]
    change p.activeCount + List.length (List.reverse _) + p.uncounted ≤ _
    rw [List.length_reverse]
    omega
  | startCheck hc =>
    refine ⟨?_, ?_⟩
    · rw [Pool.weight, Pool.uncounted, hc] at hw
      rw [Pool.weight, Pool.uncounted]
      change p.activeCount + p.idle.length + 0 + (total Task.handed p.tasks + 0) ≤ _
      exact hw
    · change p.idle.reverse.length + 0 ≤ p.idle.length
      rw [List.length_reverse]
      exact Nat.le_refl _
  | checkEnded hc => exact ⟨weight_putBack h hok hc .stopped rfl, Nat.le_refl _⟩
  | check hc =>
    have hconns := h.conns
    rw [hc] at hconns
    rw [Pool.weight, Pool.uncounted, hc] at hw
    exact ⟨hw, hconns⟩
  | @checked c todo alive size hc =>
    have hconns := h.conns
    rw [hc, Checker.conns, Checker.size, List.length_cons] at hconns
    rw [Pool.weight, Pool.uncounted, hc] at hw
    refine ⟨hw, ?_⟩
    change todo.length + (alive ++ [c]).length ≤ size
    rw [List.length_append, List.length_singleton]
    omega
  | @checkFailed c todo alive size hc =>
    have hconns := h.conns
    rw [hc, Checker.conns, Checker.size, List.length_cons] at hconns
    rw [Pool.weight, Pool.uncounted, hc] at hw
    refine ⟨hw, ?_⟩
    change todo.length + alive.length ≤ size
    omega
  | endCheck hc => exact ⟨weight_putBack h hok hc (.replenishing _ false) rfl, Nat.le_refl _⟩
  | noCheck hc | full hc | noReplenish hc =>
    rw [Pool.weight, Pool.uncounted, hc] at hw
    exact ⟨hw, Nat.le_refl _⟩
  | replenish hc hsd =>
    rw [Spaced, hc] at hsp
    have hroom := hsp.resolve_left (Bool.eq_false_iff.1 hsd)
    rw [Pool.uncounted, hc] at hroom
    refine ⟨?_, Nat.le_refl _⟩
    rw [Pool.weight, Pool.uncounted]
    exact hroom
  | replenished hc =>
    rw [Pool.weight, Pool.uncounted, hc] at hw
    change p.activeCount + p.idle.length + (total Task.handed p.tasks + 1) ≤ _ at hw
    refine ⟨?_, Nat.le_refl _⟩
    rw [Pool.weight, Pool.uncounted]
    change p.activeCount + (p.idle.length + 1) + (total Task.handed p.tasks + 0) ≤ _
    omega
  | notReplenished hc =>
    rw [Pool.weight, Pool.uncounted, hc] at hw
    change p.activeCount + p.idle.length + (total Task.handed p.tasks + 1) ≤ _ at hw
    refine ⟨?_, Nat.le_refl _⟩
    rw [Pool.weight, Pool.uncounted]
    change p.activeCount + p.idle.length + (total Task.handed p.tasks + 0) ≤ _
    omega
  | clear =>
    refine ⟨Nat.le_trans ?_ hw, h.conns⟩
    rw [Pool.weight, Pool.weight]
    change p.activeCount + 0 + p.uncounted ≤ _
    omega

theorem within_start (hn : n ≤ config.maxConnections) : Within config (start n) := by
  refine ⟨?_, Nat.le_refl _⟩
  change 0 + (List.range n).reverse.length + 0 ≤ _
  rw [List.length_reverse, List.length_range, Nat.zero_add]
  exact hn

theorem within_reaches (hn : n ≤ config.maxConnections)
    (h : Reaches config (Spaced config) (start n) p) : Within config p := by
  induction h with
  | start => exact within_start hn
  | step h hc hs ih => exact ih.step (ok_reaches h) hc hs

/-- No decrement of `activeCount_` meets zero; and as long as no connection begins to be made without
room beside those that are not counted, there are never more connections than the limit says. -/
theorem capacity_kept (config : DbConfig) (hc : config.minConnections ≤ config.maxConnections)
    (n : Nat) (hn : n ≤ config.minConnections) (p : Pool) :
    (Reaches config (fun _ _ => True) (start n) p → p.underflow = false) ∧
      (Reaches config (Spaced config) (start n) p → p.live ≤ config.maxConnections) := by
  refine ⟨fun h => (ok_reaches h).safe, fun h => ?_⟩
  exact (within_reaches (Nat.le_trans hn hc) h).live (ok_reaches h)

instance (config : DbConfig) (p : Pool) (label : Label) : Decidable (Spaced config p label) := by
  unfold Spaced
  split
  · infer_instance
  · infer_instance
  · split
    · infer_instance
    · infer_instance
  · infer_instance

/-- A connection is made and handed over to a caller that waits for it. -/
def handedOver : List Label :=
  [.acquire, .lock 0 true, .created 0 true, .acquire, .lock 1 true, .release 0, .timer 1]

theorem capacity_kept_handedOver : ∃ p, Reaches ⟨0, 1⟩ (Spaced ⟨0, 1⟩) (start 0) p ∧
    p.tasks = [.finished, .holding 0] ∧ p.underflow = false ∧ p.live ≤ 1 := by
  have hsome : (steps ⟨0, 1⟩ (Spaced ⟨0, 1⟩) (start 0) handedOver).map Pool.tasks =
      some [.finished, .holding 0] := by
    decide +kernel
  obtain ⟨p, hp, htasks⟩ := Option.map_eq_some_iff.1 hsome
  have hreach : Reaches ⟨0, 1⟩ (Spaced ⟨0, 1⟩) (start 0) p := reaches_steps .start hp
  obtain ⟨hsafe, hlive⟩ := capacity_kept ⟨0, 1⟩ (by decide) 0 (by decide) p
  exact ⟨p, hreach, htasks, hsafe hreach.free, hlive hreach⟩

end Steps

/-- The first connection lies in the slot of the second caller when the third one comes. -/
def overtaken : List Label :=
  [.acquire, .lock 0 true, .created 0 true, .acquire, .lock 1 true, .release 0, .acquire, .lock 2 true]

/-- Two connections where one is the limit. -/
theorem capacity_exceeded : ∃ p, Reaches ⟨0, 1⟩ (fun _ _ => True) (start 0) p ∧ 1 < p.live := by
  have hsome : ((steps ⟨0, 1⟩ (fun _ _ => True) (start 0) overtaken).map Pool.live) = some 2 := by
    decide +kernel
  obtain ⟨p, hp, hlive⟩ := Option.map_eq_some_iff.1 hsome
  refine ⟨p, reaches_steps .start hp, ?_⟩
  rw [hlive]
  exact Nat.one_lt_two

end Hical.Db
