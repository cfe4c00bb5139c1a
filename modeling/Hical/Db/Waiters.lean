import Hical.Db.Capacity

namespace Hical.Db
open Ledger

namespace Pool

/-- The connections that keep a waiter from getting one: held, handed over, pinged, rolled back or
being made for a task, or with the health checker. -/
def blocked (p : Pool) : Nat := total Task.live p.tasks + p.checker.conns

end Pool

/-- Whoever waits does so for want of a connection and of room for one. -/
def Blocked (config : DbConfig) (p : Pool) : Prop :=
  p.waiters ≠ [] → p.idle = [] ∧ config.maxConnections ≤ p.blocked

/-- No connection is let go of, or put among the idle ones, while somebody waits; and nobody begins to
wait for the sake of a connection that the health checker has already let go of. -/
def Wakes (config : DbConfig) (p : Pool) : Label → Prop
  | .lock _ _ => p.idle.any p.isAlive = true ∨ p.activeCount < config.maxConnections ∨
      p.checker.conns = p.checker.size
  | .pinged _ false _ => p.idle.any p.isAlive = true ∨ p.activeCount - 1 < config.maxConnections ∨
      p.checker.conns = p.checker.size
  | .created _ false => p.waiters = []
  | .rolledBack _ ok => p.waiters = [] ∨ ok = true ∧ p.shutdown = false
  | .checked false => p.waiters = []
  | .check => p.waiters = [] ∨ p.shutdown = false
  | .endCheck => p.waiters = [] ∨ p.checker.conns = 0
  | .replenished true => p.waiters = []
  | _ => True

section Steps
variable {config : DbConfig} {p p' q : Pool} {t : Task} {i w c : Nat}

theorem blocked_setTask (hi : p.tasks[i]? = some t) (t' : Task) :
    (p.setTask i t').blocked + t.live = p.blocked + t'.live := by
  have := total_set (f := Task.live) hi t'
  rw [Pool.blocked, Pool.blocked, Pool.setTask]
  dsimp only
  omega

theorem total_active_le (l : List Task) : total Task.active l ≤ total Task.live l := by
  induction l with
  | nil => exact Nat.le_refl _
  | cons t l ih =>
    rw [total_cons, total_cons, t.live_eq]
    omega

theorem blocked_fill (h : p.tasks[w]? = some (.waiting none) ∨ p.tasks[w]? = some (.timedOut none)) :
    (p.fill w c).blocked = p.blocked + 1 ∧ (p.fill w c).idle = p.idle ∧
      (p.fill w c).waiters = p.waiters := by
  rw [Pool.fill]
  rcases h with h | h
  · rw [h]
    exact ⟨blocked_setTask h (.waiting (some c)), rfl, rfl⟩
  · rw [h]
    exact ⟨blocked_setTask h (.timedOut (some c)), rfl, rfl⟩

theorem Blocked.frame (h : Blocked config p) (hw : p'.waiters ≠ [] → p.waiters ≠ [])
    (hi : p.idle = [] → p'.idle = []) (hb : p.blocked ≤ p'.blocked) : Blocked config p' := by
  intro hn
  obtain ⟨h₁, h₂⟩ := h (hw hn)
  exact ⟨hi h₁, Nat.le_trans h₂ hb⟩

theorem Blocked.setTask (h : Blocked config p) (hi : p.tasks[i]? = some t) (t' : Task)
    (hl : t.live ≤ t'.live) : Blocked config (p.setTask i t') := by
  have := blocked_setTask hi t'
  exact h.frame (fun hn => hn) (fun hn => hn) (by omega)

theorem blocked_decrementGuarded (p : Pool) : p.decrementGuarded.blocked = p.blocked ∧
    p.decrementGuarded.waiters = p.waiters ∧ p.decrementGuarded.idle = p.idle ∧
    p.decrementGuarded.tasks = p.tasks := by
  rw [Pool.decrementGuarded]
  split
  · exact ⟨rfl, rfl, rfl, rfl⟩
  · exact ⟨rfl, rfl, rfl, rfl⟩

theorem Blocked.handOver (h : Blocked config p) (hidle : q.idle = p.idle)
    (hwaiters : q.waiters = p.waiters) (hq : q.blocked + 1 = p.blocked)
    (hqueued : ∀ w ∈ q.waiters,
      q.tasks[w]? = some (.waiting none) ∨ q.tasks[w]? = some (.timedOut none))
    (hw : q.waiters = w :: waiters) : Blocked config (Pool.fill { q with waiters := waiters } w c) := by
  obtain ⟨h₁, h₂⟩ := h (by rw [← hwaiters, hw]; exact nofun)
  have hslot := hqueued w (by rw [hw]; exact List.mem_cons_self)
  obtain ⟨hb, hi, -⟩ := blocked_fill (p := { q with waiters := waiters }) (c := c) hslot
  intro _
  refine ⟨?_, ?_⟩
  · rw [hi]
    exact hidle.trans h₁
  · rw [hb]
    exact Nat.le_trans h₂ (Nat.le_of_eq hq.symm)

theorem waiters_nil (h : p.waiters = []) : Blocked config p := fun hn => absurd h hn

theorem Blocked.release (h : Blocked config p) (hok : Ok p) (hi : p.tasks[i]? = some (.holding c)) :
    Blocked config (p.release i c) := by
  rw [Pool.release]
  split
  · exact h.setTask hi (.rollingBack c) (Nat.le_refl _)
  have hn := hok.not_queued hi Task.noConfusion Task.noConfusion
  have hset := blocked_setTask hi .finished
  obtain ⟨hb, hw, hidle, ht⟩ := blocked_decrementGuarded (p.setTask i .finished)
  rw [Pool.returnIdle]
  split
  · next w waiters hq =>
    refine h.handOver hidle hw ?_ ?_ hq
    · rw [hb]
      exact hset
    · intro v hv
      rw [hw] at hv
      rw [ht]
      have hne : i ≠ v := fun heq => hn (heq ▸ hv)
      rw [Pool.setTask]
      dsimp only
      rw [List.getElem?_set_ne hne]
      exact hok.queued v hv
  · next hq =>
    split
    · exact waiters_nil hq
    · exact waiters_nil hq

theorem Blocked.rolledBack (h : Blocked config p) (hok : Ok p)
    (hi : p.tasks[i]? = some (.rollingBack c)) (hc : p.waiters = [] ∨ p.shutdown = false) :
    Blocked config (p.rolledBack i c) := by
  have hn := hok.not_queued hi nofun nofun
  have hset : (Pool.setTask { p with inTransaction := Function.update p.inTransaction c false } i
      .finished).blocked + 1 = p.blocked := blocked_setTask hi .finished
  obtain ⟨hb, hw, hidle, ht⟩ := blocked_decrementGuarded (Pool.setTask
    { p with inTransaction := Function.update p.inTransaction c false } i .finished)
  have hs : (Pool.setTask { p with inTransaction := Function.update p.inTransaction c false } i
      .finished).decrementGuarded.shutdown = p.shutdown := by
    rw [Pool.decrementGuarded]
    split
    · rfl
    · rfl
  rw [Pool.rolledBack]
  generalize (Pool.setTask { p with inTransaction := Function.update p.inTransaction c false } i
      .finished).decrementGuarded = q at hb hw hidle ht hs ⊢
  split
  · next hsd =>
    rcases hc with hc | hc
    · exact waiters_nil (hw.trans hc)
    · rw [hs, hc] at hsd
      cases hsd
  split
  · next w waiters hq =>
    refine h.handOver hidle hw ?_ ?_ hq
    · rw [hb]
      exact hset
    · intro v hv
      rw [hw] at hv
      rw [ht]
      have hne : i ≠ v := fun heq => hn (heq ▸ hv)
      rw [Pool.setTask]
      dsimp only
      rw [List.getElem?_set_ne hne]
      exact hok.queued v hv
  · next hq => exact waiters_nil hq

theorem blocked_lookUp (hi : p.tasks[i]? = some .entered) (recent : Bool)
    (h : p.waiters ≠ [] → p.idle = [] ∧ config.maxConnections ≤ p.blocked + 1)
    (hcount : p.activeCount ≤ total Task.active p.tasks + p.checker.size)
    (hc : p.idle.any p.isAlive = true ∨ p.activeCount < config.maxConnections ∨
      p.checker.conns = p.checker.size) :
    Blocked config (p.lookUp config i recent) := by
  have hnone := popIdle_none p.isAlive p.idle
  have hempty : p.idle = [] → (Pool.popIdle p.isAlive p.idle).2.1 = none := by
    intro hn
    rw [hn]
    rfl
  rw [Pool.lookUp]
  generalize Pool.popIdle p.isAlive p.idle = found at hnone hempty
  obtain ⟨dead, found, rest⟩ := found
  dsimp only at hnone hempty ⊢
  cases found with
  | some c =>
    intro hn
    have := hempty (h hn).1
    cases this
  | none =>
    obtain ⟨hdead, hrest⟩ := hnone rfl
    subst hrest
    dsimp only
    split
    · intro hn
      obtain ⟨-, hb⟩ := h hn
      have hset : (Pool.setTask { p with idle := [], activeCount := p.activeCount + 1 } i
          .creating).blocked = p.blocked + 1 := blocked_setTask hi .creating
      refine ⟨rfl, Nat.le_trans hb (Nat.le_of_eq hset.symm)⟩
    · next hroom =>
      intro _
      refine ⟨rfl, ?_⟩
      have hset : (Pool.setTask { p with idle := [], waiters := p.waiters ++ [i] } i
          (.waiting none)).blocked = p.blocked := blocked_setTask hi (.waiting none)
      refine Nat.le_trans ?_ (Nat.le_of_eq hset.symm)
      change ¬(p.activeCount + 0 < config.maxConnections) at hroom
      have hle := total_active_le p.tasks
      rw [Pool.blocked]
      rw [hdead] at hc
      rcases hc with hc | hc | hc
      · cases hc
      · omega
      · omega

theorem Blocked.cleanUp (h : Blocked config p) (hok : Ok p)
    (hi : p.tasks[i]? = some (.timedOut slot)) : Blocked config (p.cleanUp i slot) := by
  have hfilter : p.waiters.filter (· ≠ i) ≠ [] → p.waiters ≠ [] := by
    intro hn he
    rw [he] at hn
    exact hn rfl
  rw [Pool.cleanUp.eq_def]
  cases slot with
  | none =>
    have hset : (Pool.setTask { p with waiters := p.waiters.filter (· ≠ i) } i .finished).blocked =
      p.blocked := blocked_setTask hi .finished
    exact h.frame hfilter (fun hn => hn) (Nat.le_of_eq hset.symm)
  | some c =>
    have hn := hok.not_queued hi Task.noConfusion fun h => by cases h
    dsimp only
    rw [decide_eq_false hn, if_neg Bool.false_ne_true]
    have hset : (Pool.setTask { p with
        waiters := p.waiters.filter (· ≠ i), activeCount := p.activeCount + 1 } i (.holding c)).blocked + 1 =
      p.blocked + 1 := blocked_setTask hi (.holding c)
    exact h.frame hfilter (fun hn => hn) (Nat.le_of_eq (Nat.succ.inj hset).symm)

theorem Blocked.step (h : Blocked config p) (hok : Ok p) (hsp : Wakes config p label)
    (hs : Db.step config p label = some p') : Blocked config p' := by
  cases step_does hs with
  | acquire =>
    refine h.frame (fun hn => hn) (fun hn => hn) (Nat.le_of_eq ?_)
    rw [Pool.blocked, Pool.blocked]
    dsimp only
    rw [total_append]
    rfl
  | lock hi =>
    refine blocked_lookUp hi _ (fun hn => ⟨(h hn).1, Nat.le_succ_of_le (h hn).2⟩)
      (Nat.le_of_eq hok.counted) hsp
  | pinged hi | timedOut hi => exact h.setTask hi _ (Nat.le_refl _)
  | @pingFailed i recent c hi =>
    obtain ⟨hlt, -⟩ := List.getElem?_eq_some_iff.1 hi
    have hpos := hok.active_pos hi Nat.one_pos
    have hb : (((p.drop [c] .failedPing).setTask i .entered).decrement).blocked + 1 = p.blocked :=
      blocked_setTask (p := p.drop [c] .failedPing) hi .entered
    have hact : (((p.drop [c] .failedPing).setTask i .entered).decrement).activeCount =
        p.activeCount - 1 := if_neg (Nat.ne_of_gt hpos)
    have htotal := total_set (f := Task.active) hi .entered
    have hcount := hok.counted
    refine blocked_lookUp (List.getElem?_set_self hlt) recent (fun hn => ?_) ?_ ?_
    · obtain ⟨h₁, h₂⟩ := h hn
      exact ⟨h₁, Nat.le_trans h₂ (Nat.le_of_eq hb.symm)⟩
    · rw [hact]
      change _ ≤ total Task.active (p.tasks.set i .entered) + p.checker.size
      have h₀ : (Task.pinging c).active = 1 := rfl
      have h₁ : Task.entered.active = 0 := rfl
      omega
    · rw [hact]
      exact hsp
  | created hi => exact Blocked.setTask (p := p.make) h hi _ (Nat.le_refl _)
  | notCreated => exact waiters_nil hsp
  | handed hi =>
    exact Blocked.setTask (p := { p with activeCount := p.activeCount + 1 }) h hi _ (Nat.le_refl _)
  | cleanUp hi => exact h.cleanUp hok hi
  | release hi => exact h.release hok hi
  | rolledBack hi => exact h.rolledBack hok hi (hsp.imp (fun hw => hw) And.right)
  | @rollbackFailed i c hi =>
    obtain ⟨-, hw, -, -⟩ := blocked_decrementGuarded ((p.drop [c] .failedRollback).setTask i .finished)
    refine waiters_nil (hw.trans ?_)
    exact hsp.resolve_right (fun hn => Bool.false_ne_true hn.1)
  | setTransaction | dies | shutdown => exact h
  | trim _ hkept =>
    subst hkept
    refine h.frame (fun hn => hn) (fun hn => ?_) (Nat.le_refl _)
    change (Pool.trim _ _ p.idle.reverse _).1.reverse = []
    rw [hn]
    rfl
  | startCheck hc =>
    refine h.frame (fun hn => hn) (fun _ => rfl) ?_
    rw [Pool.blocked, hc]
    exact Nat.le_add_right _ _
  | checkEnded hc hsd =>
    refine waiters_nil (hsp.resolve_right fun hn => ?_)
    rw [hn] at hsd
    cases hsd
  | @checked c todo alive size hc =>
    refine h.frame (fun hn => hn) (fun hn => hn) ?_
    rw [Pool.blocked, hc]
    change total Task.live p.tasks + (todo.length + 1 + alive.length) ≤
      total Task.live p.tasks + (todo.length + (alive ++ [c]).length)
    rw [List.length_append, List.length_singleton]
    omega
  | checkFailed | replenished => exact waiters_nil hsp
  | @endCheck alive size busy hc =>
    rcases hsp with hw | hz
    · exact waiters_nil hw
    · rw [hc] at hz
      change 0 + alive.length = 0 at hz
      have halive : alive = [] := List.length_eq_zero_iff.1 (by omega)
      subst halive
      refine h.frame (fun hn => hn) (fun hn => hn) ?_
      rw [Pool.blocked, hc]
      exact Nat.le_refl _
  | noCheck hc | check hc | full hc | noReplenish hc | replenish hc | notReplenished hc =>
    refine h.frame (fun hn => hn) (fun hn => hn) ?_
    rw [Pool.blocked, hc]
    exact Nat.le_refl _
  | clear => exact waiters_nil rfl

theorem blocked_reaches (h : Reaches config (Wakes config) (start n) p) : Blocked config p := by
  induction h with
  | start => exact waiters_nil rfl
  | step h hc hs ih => exact ih.step (ok_reaches h) hc hs

end Steps

/-- Nobody is in the middle of an `acquire`, except waiting without a connection. -/
def Task.atRest : Task → Bool
  | .waiting none => true
  | .timedOut none => true
  | .holding _ => true
  | .rollingBack _ => true
  | .finished => true
  | _ => false

/-- The health checker is between two rounds or has ended. -/
def Checker.atRest : Checker → Bool
  | .sleeping => true
  | .stopped => true
  | _ => false

/-- No `acquire` and no round of the health checker is under way. -/
structure AtRest (p : Pool) : Prop where
  tasks : ∀ t ∈ p.tasks, t.atRest = true
  checker : p.checker.atRest = true

/-- The pool behind its shutdown. -/
structure Over (p : Pool) : Prop where
  rest : AtRest p
  shutdown : p.shutdown = true
  idle : p.idle = []
  waiters : p.waiters = []

section Ended
variable {config : DbConfig} {p p' : Pool} {t : Task} {i c : Nat}

theorem AtRest.task (h : AtRest p) (hi : p.tasks[i]? = some t) : t.atRest = true :=
  h.tasks t (List.mem_of_getElem? hi)

theorem AtRest.setTask (h : AtRest p) (ht : t.atRest = true) : AtRest (p.setTask i t) := by
  refine ⟨fun t' ht' => ?_, h.checker⟩
  rcases List.mem_or_eq_of_mem_set ht' with hm | rfl
  · exact h.tasks t' hm
  · exact ht

theorem over_decrementGuarded (h : Over p) : Over p.decrementGuarded := by
  rw [Pool.decrementGuarded]
  split
  · exact ⟨⟨h.rest.tasks, h.rest.checker⟩, h.shutdown, h.idle, h.waiters⟩
  · exact h

theorem over_finish (h : Over p) (i : Nat) : Over (p.setTask i .finished) :=
  ⟨h.rest.setTask rfl, h.shutdown, h.idle, h.waiters⟩

theorem over_returnIdle (h : Over p) (c : Nat) : Over (p.returnIdle c) := by
  have hd := over_decrementGuarded h
  rw [Pool.returnIdle]
  rw [hd.waiters]
  dsimp only
  rw [hd.shutdown, if_pos rfl]
  exact ⟨⟨hd.rest.tasks, hd.rest.checker⟩, hd.shutdown, hd.idle, hd.waiters⟩

theorem withheld_set {l : List Task} {j : Nat} (ht : ∀ c, t ≠ .holding c)
    (h : (l.set i t)[j]? = some (.holding c)) : l[j]? = some (.holding c) := by
  rw [List.getElem?_set] at h
  split at h
  · split at h
    · exact absurd (Option.some.inj h) (ht c)
    · cases h
  · exact h

theorem tasks_returnIdle (h : Over p) (c : Nat) : (p.returnIdle c).tasks = p.tasks := by
  obtain ⟨-, -, -, ht⟩ := blocked_decrementGuarded p
  have hd := over_decrementGuarded h
  rw [Pool.returnIdle]
  rw [hd.waiters]
  dsimp only
  rw [hd.shutdown, if_pos rfl]
  exact ht

theorem Over.step (h : Over p) (hs : Db.step config p label = some p') : Over p' ∧ Withheld p p' := by
  have hsame : ∀ q : Pool, q.tasks = p.tasks → Withheld p q := by
    intro q hq i c hi
    rw [← hq]
    exact hi
  cases step_does hs with
  | acquire hsd | trim hsd | startCheck _ hsd =>
    rw [h.shutdown] at hsd
    cases hsd
  | lock hi | pinged hi | pingFailed hi | created hi | notCreated hi | handed hi =>
    exact absurd (h.rest.task hi) Bool.false_ne_true
  | timedOut =>
    exact ⟨⟨h.rest.setTask rfl, h.shutdown, h.idle, h.waiters⟩, fun _ _ => withheld_set fun _ => Task.noConfusion⟩
  | @cleanUp i slot hi =>
    cases slot with
    | some c => exact absurd (h.rest.task hi) Bool.false_ne_true
    | none =>
      rw [Pool.cleanUp.eq_def]
      refine ⟨⟨AtRest.setTask (p := { p with waiters := p.waiters.filter (· ≠ i) })
        ⟨h.rest.tasks, h.rest.checker⟩ rfl, h.shutdown, h.idle, ?_⟩, fun _ _ => withheld_set fun _ => Task.noConfusion⟩
      change p.waiters.filter (· ≠ i) = []
      rw [h.waiters]
      rfl
  | @release i c hi =>
    rw [Pool.release]
    split
    · exact ⟨⟨h.rest.setTask rfl, h.shutdown, h.idle, h.waiters⟩, fun _ _ => withheld_set fun _ => Task.noConfusion⟩
    · refine ⟨over_returnIdle (over_finish h i) c, ?_⟩
      intro j c' hj
      rw [tasks_returnIdle (over_finish h i) c] at hj
      exact withheld_set (t := .finished) (fun _ => Task.noConfusion) hj
  | @rolledBack i c hi =>
    have hf : Over (Pool.setTask
        { p with inTransaction := Function.update p.inTransaction c false } i .finished) :=
      ⟨(AtRest.setTask (p := { p with inTransaction := Function.update p.inTransaction c false })
        ⟨h.rest.tasks, h.rest.checker⟩ rfl), h.shutdown, h.idle, h.waiters⟩
    obtain ⟨-, -, -, ht⟩ := blocked_decrementGuarded (Pool.setTask
        { p with inTransaction := Function.update p.inTransaction c false } i .finished)
    have hd := over_decrementGuarded hf
    rw [Pool.rolledBack]
    rw [hd.shutdown, if_pos rfl]
    refine ⟨⟨⟨hd.rest.tasks, hd.rest.checker⟩, hd.shutdown, hd.idle, hd.waiters⟩, ?_⟩
    intro j c' hj
    change (Pool.decrementGuarded _).tasks[j]? = _ at hj
    rw [ht] at hj
    exact withheld_set (t := .finished) (fun _ => Task.noConfusion) hj
  | @rollbackFailed i c hi =>
    have hf : Over ((p.drop [c] .failedRollback).setTask i .finished) :=
      ⟨(AtRest.setTask (p := p.drop [c] .failedRollback)
        ⟨h.rest.tasks, h.rest.checker⟩ rfl), h.shutdown, h.idle, h.waiters⟩
    obtain ⟨-, -, -, ht⟩ := blocked_decrementGuarded ((p.drop [c] .failedRollback).setTask i .finished)
    refine ⟨over_decrementGuarded hf, ?_⟩
    intro j c' hj
    rw [ht] at hj
    exact withheld_set (t := .finished) (fun _ => Task.noConfusion) hj
  | setTransaction | dies =>
    exact ⟨⟨⟨h.rest.tasks, h.rest.checker⟩, h.shutdown, h.idle, h.waiters⟩, hsame _ rfl⟩
  | noCheck => exact ⟨⟨⟨h.rest.tasks, rfl⟩, h.shutdown, h.idle, h.waiters⟩, hsame _ rfl⟩
  | checkEnded hc | check hc | checked hc | checkFailed hc | endCheck hc | full hc | noReplenish hc
  | replenish hc | replenished hc | notReplenished hc =>
    have hrest := h.rest.checker
    rw [hc] at hrest
    cases hrest
  | shutdown => exact ⟨⟨⟨h.rest.tasks, h.rest.checker⟩, rfl, h.idle, h.waiters⟩, hsame _ rfl⟩
  | clear => exact ⟨⟨⟨h.rest.tasks, h.rest.checker⟩, h.shutdown, rfl, rfl⟩, hsame _ rfl⟩

theorem over_reaches (h : Over p) (hr : Reaches config C p p') : Over p' := by
  induction hr with
  | start => exact h
  | step _ _ hs ih => exact (ih.step hs).1

theorem over_clear (h : AtRest p) (hs : Db.step config p .clear = some p') : Over p' := by
  rw [Db.step] at hs
  split at hs
  · next hsd =>
    cases hs
    exact ⟨⟨h.tasks, h.checker⟩, hsd, rfl, rfl⟩
  · cases hs

end Ended

/-- As long as nothing is let go of or becomes idle while somebody waits, whoever waits is kept from a
connection by as many as there may be; and behind a shutdown that completes while no `acquire` and no
round of the health checker is under way, nothing becomes idle and nobody gets a connection. -/
theorem wakeups_kept (config : DbConfig) (n : Nat) (p : Pool) :
    (Reaches config (Wakes config) (start n) p →
      p.waiters ≠ [] → p.idle = [] ∧ config.maxConnections ≤ p.blocked) ∧
    ∀ p' q, Reaches config (fun _ _ => True) (start n) p → AtRest p →
      step config p .clear = some p' → Reaches config (fun _ _ => True) p' q →
      q.idle = [] ∧ ∀ label q', step config q label = some q' → Withheld q q' := by
  refine ⟨fun h => blocked_reaches h, fun p' q _ hrest hs hr => ?_⟩
  have hover := over_reaches (over_clear hrest hs) hr
  exact ⟨hover.idle, fun label q' hq => (hover.step hq).2⟩

instance (config : DbConfig) (p : Pool) : (label : Label) → Decidable (Wakes config p label)
  | .lock _ _ => inferInstanceAs (Decidable (_ ∨ _ ∨ _))
  | .pinged _ false _ => inferInstanceAs (Decidable (_ ∨ _ ∨ _))
  | .created _ false => inferInstanceAs (Decidable (p.waiters = []))
  | .rolledBack _ ok => inferInstanceAs (Decidable (_ ∨ ok = true ∧ _))
  | .checked false => inferInstanceAs (Decidable (p.waiters = []))
  | .check => inferInstanceAs (Decidable (_ ∨ p.shutdown = false))
  | .endCheck => inferInstanceAs (Decidable (_ ∨ p.checker.conns = 0))
  | .replenished true => inferInstanceAs (Decidable (p.waiters = []))
  | .pinged _ true _ | .created _ true | .checked true | .replenished false | .acquire | .timer _ | .cleanUp _
  | .release _ | .setTransaction _ _ | .dies _ | .trim _ | .startCheck | .replenish | .shutdown | .clear =>
    .isTrue trivial

/-- A second caller waits while the first one has the connection. -/
def waits : List Label := [.acquire, .lock 0 true, .created 0 true, .acquire, .lock 1 true]

/-- It gives up, and the pool shuts down while the connection is held. -/
def givesUp : List Label := waits ++ [.timer 1, .cleanUp 1, .shutdown]

theorem wakeups_kept_waits :
    (∃ p, Reaches ⟨0, 1⟩ (Wakes ⟨0, 1⟩) (start 0) p ∧ p.waiters = [1] ∧ p.idle = [] ∧ 1 ≤ p.blocked) ∧
    ∃ p p' q, Reaches ⟨0, 1⟩ (fun _ _ => True) (start 0) p ∧ p.tasks = [.holding 0, .finished] ∧
      step ⟨0, 1⟩ p .clear = some p' ∧ Reaches ⟨0, 1⟩ (fun _ _ => True) p' q ∧ q.dropped = [(0, .shutdown)] ∧
      q.idle = [] ∧ ∀ label q', step ⟨0, 1⟩ q label = some q' → Withheld q q' := by
  constructor
  · have hsome : (steps ⟨0, 1⟩ (Wakes ⟨0, 1⟩) (start 0) waits).map Pool.waiters = some [1] := by
      decide +kernel
    obtain ⟨p, hp, hw⟩ := Option.map_eq_some_iff.1 hsome
    have hreach := reaches_steps .start hp
    have hkept := (wakeups_kept ⟨0, 1⟩ 0 p).1 hreach (hw ▸ List.cons_ne_nil 1 [])
    exact ⟨p, hreach, hw, hkept⟩
  · have hsome : (steps ⟨0, 1⟩ (fun _ _ => True) (start 0) givesUp).map (fun p => (p.tasks, p.checker)) =
        some ([.holding 0, .finished], .sleeping) := by
      decide +kernel
    obtain ⟨p, hp, heq⟩ := Option.map_eq_some_iff.1 hsome
    obtain ⟨htasks, hchecker⟩ := Prod.mk.inj heq
    have hreach := reaches_steps .start hp
    have hlater : ((steps ⟨0, 1⟩ (fun _ _ => True) (start 0) givesUp).bind fun p =>
        (step ⟨0, 1⟩ p .clear).bind fun p' => steps ⟨0, 1⟩ (fun _ _ => True) p' [.release 0]).map
          Pool.dropped = some [(0, .shutdown)] := by
      decide +kernel
    obtain ⟨q, hq, hdropped⟩ := Option.map_eq_some_iff.1 hlater
    rw [hp, Option.bind_some] at hq
    obtain ⟨p', hclear, hq⟩ := Option.bind_eq_some_iff.1 hq
    have hrest : AtRest p := by
      refine ⟨?_, by rw [hchecker]; rfl⟩
      rw [htasks]
      decide
    have hbehind : Reaches ⟨0, 1⟩ (fun _ _ => True) p' q := reaches_steps .start hq
    have hkept := (wakeups_kept ⟨0, 1⟩ 0 p).2 p' q hreach hrest hclear hbehind
    exact ⟨p, p', q, hreach, htasks, hclear, hbehind, hdropped, hkept⟩

/-- The second caller waits when the connection for the first cannot be made. -/
def refusedCreation : List Label :=
  [.acquire, .lock 0 true, .acquire, .lock 1 true, .created 0 false]

/-- The shutdown completes while a connection is being made. -/
def shutDown : List Label := [.acquire, .lock 0 true, .shutdown, .clear]

/-- A caller waits although there is no connection at all; and a caller gets one behind the shutdown. -/
theorem wakeup_lost :
    (∃ p, Reaches ⟨0, 1⟩ (fun _ _ => True) (start 0) p ∧ p.waiters ≠ [] ∧ p.blocked < 1) ∧
    ∃ p q, Reaches ⟨0, 1⟩ (fun _ _ => True) (start 0) p ∧ p.shutdown = true ∧ p.waiters = [] ∧
      p.idle = [] ∧ step ⟨0, 1⟩ p (.created 0 true) = some q ∧ ¬Withheld p q := by
  constructor
  · have hsome : (steps ⟨0, 1⟩ (fun _ _ => True) (start 0) refusedCreation).map (fun p => (p.waiters, p.blocked)) =
        some ([1], 0) := by
      decide +kernel
    obtain ⟨p, hp, heq⟩ := Option.map_eq_some_iff.1 hsome
    obtain ⟨hw, hb⟩ := Prod.mk.inj heq
    refine ⟨p, reaches_steps .start hp, ?_, ?_⟩
    · rw [hw]
      exact nofun
    · rw [hb]
      exact Nat.one_pos
  · have hsome : (steps ⟨0, 1⟩ (fun _ _ => True) (start 0) shutDown).map
        (fun p => (p.shutdown, p.waiters, p.idle, p.tasks)) = some (true, [], [], [.creating]) := by
      decide +kernel
    obtain ⟨p, hp, heq⟩ := Option.map_eq_some_iff.1 hsome
    obtain ⟨hs, heq⟩ := Prod.mk.inj heq
    obtain ⟨hw, heq⟩ := Prod.mk.inj heq
    obtain ⟨hi, ht⟩ := Prod.mk.inj heq
    refine ⟨p, p.make.setTask 0 (.holding p.made), reaches_steps .start hp, hs, hw, hi, ?_, ?_⟩
    · rw [step, ht]
      rfl
    · intro hn
      have := hn 0 p.made (by
        change (p.tasks.set 0 (.holding p.made))[0]? = _
        rw [ht]
        rfl)
      rw [ht] at this
      cases this

end Hical.Db
