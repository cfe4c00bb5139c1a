import Hical.Db.Ownership

namespace Hical.Db
open Ledger

/-- In how many places of the pool a connection is: among the idle ones, with a caller, in a slot, on
its way through `acquire` or a rollback, or with the health checker. -/
def Pool.places (p : Pool) (c : Nat) : Nat :=
  p.idle.count c + total (Task.has c) p.tasks + p.checker.has c

/-- A caller has the connection. -/
def Pool.Holds (p : Pool) (i c : Nat) : Prop := p.tasks[i]? = some (.holding c)

/-- Whoever gets a connection gets it outside of a transaction. -/
def Delivers (p q : Pool) : Prop :=
  ∀ i c, q.Holds i c → p.Holds i c ∨ q.inTransaction c = false

theorem Withheld.trans (h : Withheld p q) (h' : Withheld q r) : Withheld p r :=
  fun i c hr => h i c (h' i c hr)

theorem Withheld.delivers (h : Withheld p q) : Delivers p q := fun i c hq => .inl (h i c hq)

theorem Withheld.of_tasks (h : q.tasks = p.tasks) : Withheld p q := by
  intro i c hq
  rwa [h] at hq

section Tasks
variable (p : Pool)

theorem holds_setTask (h : (p.setTask i t).Holds j c) :
    p.Holds j c ∨ i = j ∧ t = .holding c := by
  rw [Pool.Holds, Pool.setTask] at h
  dsimp only at h
  by_cases hij : i = j
  · subst hij
    by_cases hlt : i < p.tasks.length
    · rw [List.getElem?_set_self hlt] at h
      exact .inr ⟨rfl, Option.some.inj h⟩
    · rw [List.set_eq_of_length_le (Nat.le_of_not_lt hlt)] at h
      exact .inl h
  · rw [List.getElem?_set_ne hij] at h
    exact .inl h

theorem withheld_setTask (i : Nat) (ht : ∀ c, t ≠ .holding c) : Withheld p (p.setTask i t) := by
  intro j c h
  rcases holds_setTask p h with h | ⟨-, h⟩
  · exact h
  · exact absurd h (ht c)

theorem delivers_setTask (i : Nat) (ht : ∀ c, t = .holding c → p.inTransaction c = false) :
    Delivers p (p.setTask i t) := by
  intro j c h
  rcases holds_setTask p h with h | ⟨-, h⟩
  · exact .inl h
  · exact .inr (ht c h)

theorem withheld_fill (w c : Nat) : Withheld p (p.fill w c) := by
  rw [Pool.fill]
  split
  · exact withheld_setTask p w fun _ => Task.noConfusion
  · exact withheld_setTask p w fun _ => Task.noConfusion
  · exact .of_tasks rfl

theorem withheld_decrementGuarded : Withheld p p.decrementGuarded := by
  rw [Pool.decrementGuarded]
  split
  · exact .of_tasks rfl
  · exact .of_tasks rfl

theorem withheld_returnIdle (c : Nat) : Withheld p (p.returnIdle c) := by
  apply (withheld_decrementGuarded p).trans
  rw [Pool.returnIdle]
  split
  · exact withheld_fill _ _ _
  · split
    · exact .of_tasks rfl
    · exact .of_tasks rfl

theorem withheld_release (i c : Nat) : Withheld p (p.release i c) := by
  rw [Pool.release]
  split
  · exact withheld_setTask p i fun _ => Task.noConfusion
  · exact (withheld_setTask (t := .finished) p i fun _ => Task.noConfusion).trans (withheld_returnIdle _ c)

theorem withheld_rolledBack (i c : Nat) : Withheld p (p.rolledBack i c) := by
  have hf : Withheld p (Pool.setTask
      { p with inTransaction := Function.update p.inTransaction c false } i .finished) :=
    withheld_setTask { p with inTransaction := Function.update p.inTransaction c false } i nofun
  apply (hf.trans (withheld_decrementGuarded _)).trans
  rw [Pool.rolledBack]
  split
  · exact .of_tasks rfl
  · split
    · exact withheld_fill _ _ _
    · exact .of_tasks rfl

theorem delivers_lookUp (config : DbConfig) (i : Nat) (recent : Bool)
    (h : ∀ c ∈ p.idle, p.inTransaction c = false) : Delivers p (p.lookUp config i recent) := by
  have hl := (OkWith.popIdle_eq p.isAlive p.idle).1
  rw [Pool.lookUp]
  generalize Pool.popIdle p.isAlive p.idle = found at hl
  obtain ⟨dead, found, rest⟩ := found
  cases found with
  | some c =>
    apply delivers_setTask
    intro c' hc'
    apply h
    cases recent with
    | true =>
      cases hc'
      rw [hl]
      exact List.mem_append_right _ List.mem_cons_self
    | false => cases hc'
  | none =>
    dsimp only
    split
    · exact (withheld_setTask (t := .creating) _ i fun _ => Task.noConfusion).delivers
    · exact (withheld_setTask (t := .waiting none) _ i fun _ => Task.noConfusion).delivers

end Tasks

theorem Ok.free_clean {p : Pool} {t : Task} {i c : Nat} (h : Ok p) (hi : p.tasks[i]? = some t) (hf : 0 < t.free c) :
    p.inTransaction c = false := by
  by_contra ht
  have h₁ := (h.clean c (by simpa using ht)).2.2.1
  have h₂ := le_total (f := Task.free c) hi
  omega

theorem delivers_step {p p' : Pool} (h : Ok p) (hs : step config p label = some p') :
    Delivers p p' := by
  have hown : ∀ c : Nat, 0 < if some c = some c then 1 else 0 := by
    intro c
    rw [if_pos rfl]
    exact Nat.one_pos
  cases step_does hs with
  | acquire =>
    intro j c hj
    rw [Pool.Holds] at hj
    dsimp only at hj
    by_cases hlt : j < p.tasks.length
    · rw [List.getElem?_append_left hlt] at hj
      exact .inl hj
    · rw [List.getElem?_append_right (Nat.le_of_not_lt hlt)] at hj
      cases hk : j - p.tasks.length with
      | zero | succ n =>
        rw [hk] at hj
        cases hj
  | lock => exact delivers_lookUp p config _ _ fun c hc => h.idle_clean hc
  | @pinged i recent c hi | @handed i c hi =>
    apply delivers_setTask
    rintro _ ⟨⟩
    exact h.free_clean hi (hown c)
  | @pingFailed i recent c =>
    intro j c' hj
    rcases delivers_lookUp (((p.drop [c] .failedPing).setTask i .entered).decrement) config i
      recent (fun c hc => h.idle_clean hc) j c' hj with hj | hj
    · exact .inl (withheld_setTask (t := .entered) p i nofun j c' hj)
    · exact .inr hj
  | created =>
    apply delivers_setTask
    rintro _ ⟨⟩
    exact h.made_clean
  | notCreated => exact (withheld_setTask (t := .finished) _ _ nofun).delivers
  | timedOut => exact (withheld_setTask (t := .timedOut none) _ _ nofun).delivers
  | @cleanUp i slot hi =>
    rw [Pool.cleanUp.eq_def]
    cases slot with
    | none => exact (withheld_setTask (t := .finished) _ i nofun).delivers
    | some c =>
      dsimp only
      split
      · exact (withheld_release _ i c).delivers
      · apply delivers_setTask
        rintro _ ⟨⟩
        exact h.free_clean hi (hown c)
  | release => exact (withheld_release p _ _).delivers
  | rolledBack => exact (withheld_rolledBack p _ _).delivers
  | @rollbackFailed i c =>
    have hw : Withheld p ((p.drop [c] .failedRollback).setTask i .finished) :=
      withheld_setTask (p.drop [c] .failedRollback) i nofun
    exact (hw.trans (withheld_decrementGuarded _)).delivers
  -- every other step leaves the tasks as they are
  | _ => exact (Withheld.of_tasks rfl).delivers

/-- However the steps of the pool and its coroutines follow each other, every connection that was
made is in one place or was let go of once, for one of the reasons of the pool or because `isAlive`
had become false; and whoever gets a connection gets it outside of a transaction. -/
theorem connections_owned (config : DbConfig) (n : Nat) (p : Pool)
    (h : Reaches config (fun _ _ => True) (start n) p) :
    (∀ c, p.places c + (p.dropped.map Prod.fst).count c = if c < p.made then 1 else 0) ∧
      (∀ c why, (c, why) ∈ p.dropped → why = .shutdown ∨ why = .idleTrim ∨ why = .failedPing ∨
        why = .failedRollback ∨ why = .notAlive ∧ p.isAlive c = false) ∧
      ∀ label p', step config p label = some p' → Delivers p p' := by
  have hok := ok_reaches h
  refine ⟨hok.owned, ?_, fun label p' hs => delivers_step hok hs⟩
  intro c why hc
  obtain ⟨hlost, halive⟩ := hok.drops (c, why) hc
  cases why with
  | shutdown => exact .inl rfl
  | idleTrim => exact .inr (.inl rfl)
  | failedPing => exact .inr (.inr (.inl rfl))
  | failedRollback => exact .inr (.inr (.inr (.inl rfl)))
  | notAlive => exact .inr (.inr (.inr (.inr ⟨rfl, halive rfl⟩)))
  | lost => exact absurd rfl hlost

/-- A connection comes back in the middle of a transaction and is rolled back; it dies, and the next caller
gets the other one. -/
def leftOpen : List Label :=
  [.acquire, .lock 0 true, .setTransaction 0 true, .release 0, .rolledBack 0 true, .dies 1, .acquire,
    .lock 1 true]

theorem connections_owned_leftOpen : ∃ p, Reaches ⟨2, 4⟩ (fun _ _ => True) (start 2) p ∧
    p.tasks = [.finished, .holding 0] ∧ p.dropped = [(1, .notAlive)] ∧
    p.places 1 + (p.dropped.map Prod.fst).count 1 = (if 1 < p.made then 1 else 0) ∧ p.isAlive 1 = false ∧
    ∀ label p', step ⟨2, 4⟩ p label = some p' → Delivers p p' := by
  have hsome : (steps ⟨2, 4⟩ (fun _ _ => True) (start 2) leftOpen).map (fun p => (p.tasks, p.dropped)) =
      some ([.finished, .holding 0], [(1, .notAlive)]) := by
    decide +kernel
  obtain ⟨p, hp, heq⟩ := Option.map_eq_some_iff.1 hsome
  obtain ⟨htasks, hdropped⟩ := Prod.mk.inj heq
  have hreach := reaches_steps .start hp
  obtain ⟨hplaces, hwhy, hdelivers⟩ := connections_owned ⟨2, 4⟩ 2 p hreach
  have hdead : p.isAlive 1 = false := by
    have hcase := hwhy 1 .notAlive (hdropped ▸ List.mem_singleton_self _)
    simpa using hcase
  exact ⟨p, hreach, htasks, hdropped, hplaces 1, hdead, hdelivers⟩

end Hical.Db
