import Hical.Db.Pool

namespace Hical.Db
open Ledger

namespace Task

def conn : Task → Option Nat
  | entered => none
  | pinging c => some c
  | creating => none
  | waiting slot => slot
  | timedOut slot => slot
  | holding c => some c
  | rollingBack c => some c
  | finished => none

def has (c : Nat) (t : Task) : Nat := if t.conn = some c then 1 else 0

/-- The task has the connection, and no caller does. -/
def free (c : Nat) : Task → Nat
  | holding _ => 0
  | rollingBack _ => 0
  | t => t.has c

/-- The task counts in `activeCount_`. -/
def active : Task → Nat
  | pinging _ => 1
  | creating => 1
  | holding _ => 1
  | rollingBack _ => 1
  | _ => 0

theorem free_le (c : Nat) (t : Task) : t.free c ≤ t.has c := by
  cases t with
  | holding => exact Nat.zero_le _
  | rollingBack => exact Nat.zero_le _
  | _ => exact Nat.le_refl _

end Task

namespace Checker

/-- How often the connection is in the hands of the health checker. -/
def has (c : Nat) : Checker → Nat
  | checking todo alive _ _ => todo.count c + alive.count c
  | _ => 0

/-- What the health checker added to `activeCount_`. -/
def size : Checker → Nat
  | checking _ _ size _ => size
  | _ => 0

end Checker

/-- Every connection that was made is in one place, among those in hand or gone; `activeCount_`
counts the tasks, the health check and `k` more; whoever is queued can be given a connection; and what
is in no caller's hands is in no transaction. -/
structure OkWith (hand : List Nat) (k : Nat) (p : Pool) : Prop where
  owned : ∀ c, p.idle.count c + total (Task.has c) p.tasks + p.checker.has c +
    (p.dropped.map Prod.fst).count c + hand.count c = if c < p.made then 1 else 0
  counted : p.activeCount = total Task.active p.tasks + p.checker.size + k
  queue : p.waiters.Nodup
  queued : ∀ w ∈ p.waiters,
    p.tasks[w]? = some (.waiting none) ∨ p.tasks[w]? = some (.timedOut none)
  clean : ∀ c, p.inTransaction c = true → c < p.made ∧ p.idle.count c = 0 ∧
    total (Task.free c) p.tasks = 0 ∧ p.checker.has c = 0
  drops : ∀ x ∈ p.dropped, x.2 ≠ .lost ∧ (x.2 = .notAlive → p.isAlive x.1 = false)
  safe : p.underflow = false

/-- Nothing is in hand. -/
def Ok (p : Pool) : Prop := OkWith [] 0 p

namespace OkWith
variable {hand hand' : List Nat} {k k' : Nat} {p : Pool} {t t' : Task} {i c : Nat}

theorem setTask (h : OkWith hand k p) (hi : p.tasks[i]? = some t)
    (hw : i ∈ p.waiters → t' = .waiting none ∨ t' = .timedOut none)
    (hconn : ∀ c, t'.has c + hand'.count c = t.has c + hand.count c)
    (hactive : t'.active + k' = t.active + k)
    (hfree : ∀ c, p.inTransaction c = true → t'.free c = 0) : OkWith hand' k' (p.setTask i t') where
  owned c := by
    have h₁ := total_set (f := Task.has c) hi t'
    have h₂ := h.owned c
    have h₃ := hconn c
    change p.idle.count c + total (Task.has c) (p.tasks.set i t') + p.checker.has c +
      (p.dropped.map Prod.fst).count c + hand'.count c = if c < p.made then 1 else 0
    omega
  counted := by
    have h₁ := total_set (f := Task.active) hi t'
    have h₂ := h.counted
    dsimp only [Pool.setTask]
    omega
  queue := h.queue
  queued w hmem := by
    dsimp only [Pool.setTask]
    by_cases hwi : i = w
    · subst hwi
      have hlt : i < p.tasks.length := by
        obtain ⟨hlt, -⟩ := List.getElem?_eq_some_iff.1 hi
        exact hlt
      rw [List.getElem?_set_self hlt]
      rcases hw hmem with rfl | rfl
      · exact .inl rfl
      · exact .inr rfl
    · rw [List.getElem?_set_ne hwi]
      exact h.queued w hmem
  clean c hc := by
    obtain ⟨h₁, h₂, h₃, h₄⟩ := h.clean c hc
    refine ⟨h₁, h₂, ?_, h₄⟩
    have h₅ := total_set (f := Task.free c) hi t'
    have h₆ := hfree c hc
    dsimp only [Pool.setTask]
    omega
  drops := h.drops
  safe := h.safe

theorem drop (h : OkWith (l ++ hand) k p) (hl : why ≠ .lost)
    (hd : why = .notAlive → ∀ c ∈ l, p.isAlive c = false) : OkWith hand k (p.drop l why) where
  owned c := by
    have h₁ := h.owned c
    have h₂ : ((p.drop l why).dropped.map Prod.fst) = p.dropped.map Prod.fst ++ l := by
      rw [Pool.drop, List.map_append, List.map_map]
      exact congrArg _ (List.map_id l)
    rw [h₂, List.count_append]
    rw [List.count_append] at h₁
    change p.idle.count c + total (Task.has c) p.tasks + p.checker.has c +
      ((p.dropped.map Prod.fst).count c + l.count c) + hand.count c = if c < p.made then 1 else 0
    omega
  counted := h.counted
  queue := h.queue
  queued := h.queued
  clean := h.clean
  drops x hx := by
    rcases List.mem_append.1 hx with hx | hx
    · exact h.drops x hx
    · obtain ⟨c, hc, rfl⟩ := List.mem_map.1 hx
      exact ⟨hl, fun hw => hd hw c hc⟩
  safe := h.safe

theorem push (h : OkWith (c :: hand) k p) (hc : p.inTransaction c = false) :
    OkWith hand k { p with idle := c :: p.idle } where
  owned c' := by
    have h₁ := h.owned c'
    rw [List.count_cons] at h₁
    change (c :: p.idle).count c' + total (Task.has c') p.tasks + p.checker.has c' +
      (p.dropped.map Prod.fst).count c' + hand.count c' = if c' < p.made then 1 else 0
    rw [List.count_cons]
    omega
  counted := h.counted
  queue := h.queue
  queued := h.queued
  clean c' hc' := by
    obtain ⟨h₁, h₂, h₃, h₄⟩ := h.clean c' hc'
    refine ⟨h₁, ?_, h₃, h₄⟩
    have hne : ¬(c == c') = true := by
      intro heq
      rw [← eq_of_beq heq, hc] at hc'
      cases hc'
    dsimp only
    rw [List.count_cons, if_neg hne]
    exact h₂
  drops := h.drops
  safe := h.safe

theorem decrementGuarded (h : OkWith hand (k + 1) p) : OkWith hand k p.decrementGuarded := by
  have hc := h.counted
  rw [Pool.decrementGuarded, if_pos (by omega)]
  refine ⟨h.owned, ?_, h.queue, h.queued, h.clean, h.drops, h.safe⟩
  dsimp only
  omega

theorem decrement (h : OkWith hand (k + 1) p) : OkWith hand k p.decrement := by
  have hc := h.counted
  have hne : p.activeCount ≠ 0 := by omega
  rw [Pool.decrement, if_neg hne, decide_eq_false hne, Bool.or_false]
  refine ⟨h.owned, ?_, h.queue, h.queued, h.clean, h.drops, h.safe⟩
  dsimp only
  omega

theorem increment (h : OkWith hand k p) :
    OkWith hand (k + 1) { p with activeCount := p.activeCount + 1 } := by
  refine ⟨h.owned, ?_, h.queue, h.queued, h.clean, h.drops, h.safe⟩
  have := h.counted
  dsimp only
  omega

theorem dequeue (h : OkWith hand k p) (hq : p.waiters = w :: waiters) :
    OkWith hand k { p with waiters := waiters } ∧ w ∉ waiters ∧
      (p.tasks[w]? = some (.waiting none) ∨ p.tasks[w]? = some (.timedOut none)) := by
  have hnodup := h.queue
  rw [hq] at hnodup
  obtain ⟨hw, hn⟩ := List.nodup_cons.1 hnodup
  have hqueued := h.queued
  rw [hq] at hqueued
  exact ⟨⟨h.owned, h.counted, hn, fun w' hw' => hqueued w' (List.mem_cons_of_mem _ hw'), h.clean,
    h.drops, h.safe⟩, hw, hqueued w List.mem_cons_self⟩

theorem count_hand (c : Nat) (hand : List Nat) (c' : Nat) :
    (if some c = some c' then 1 else 0) + hand.count c' = 0 + (c :: hand).count c' := by
  rw [List.count_cons, Nat.zero_add, Nat.add_comm]
  by_cases heq : c = c'
  · rw [if_pos (congrArg some heq), if_pos (beq_iff_eq.2 heq)]
  · rw [if_neg fun h => heq (Option.some.inj h), if_neg fun h => heq (beq_iff_eq.1 h)]

theorem free_hand (hc : p.inTransaction c = false) (c' : Nat) (hc' : p.inTransaction c' = true) :
    (if some c = some c' then 1 else 0) = 0 := by
  rw [if_neg]
  intro heq
  rw [← Option.some.inj heq, hc] at hc'
  cases hc'

theorem fill (h : OkWith (c :: hand) k p) (hc : p.inTransaction c = false) (hw : w ∉ p.waiters)
    (ht : p.tasks[w]? = some (.waiting none) ∨ p.tasks[w]? = some (.timedOut none)) :
    OkWith hand k (p.fill w c) := by
  rw [Pool.fill]
  rcases ht with ht | ht
  · rw [ht]
    exact h.setTask ht (fun hmem => absurd hmem hw) (count_hand c hand) rfl (free_hand hc)
  · rw [ht]
    exact h.setTask ht (fun hmem => absurd hmem hw) (count_hand c hand) rfl (free_hand hc)

theorem hand_over (h : OkWith (c :: hand) k p) (hc : p.inTransaction c = false)
    (hq : p.waiters = w :: waiters) : OkWith hand k ({ p with waiters := waiters }.fill w c) := by
  obtain ⟨hd, hw, ht⟩ := h.dequeue hq
  exact hd.fill hc hw ht

theorem inTransaction_decrementGuarded (p : Pool) :
    p.decrementGuarded.inTransaction = p.inTransaction := by
  rw [Pool.decrementGuarded]
  split
  · rfl
  · rfl

theorem returnIdle (h : OkWith (c :: hand) (k + 1) p) (hc : p.inTransaction c = false) :
    OkWith hand k (p.returnIdle c) := by
  have hd := h.decrementGuarded
  have hc' : p.decrementGuarded.inTransaction c = false := by
    rw [inTransaction_decrementGuarded]
    exact hc
  rw [Pool.returnIdle]
  split
  · next hq => exact hd.hand_over hc' hq
  · split
    · exact OkWith.drop (l := [c]) hd nofun nofun
    · exact hd.push hc'

theorem not_queued (h : OkWith hand k p) (hi : p.tasks[i]? = some t) (h₁ : t ≠ .waiting none)
    (h₂ : t ≠ .timedOut none) : i ∉ p.waiters := by
  intro hw
  rcases h.queued i hw with ht | ht
  · rw [hi] at ht
    exact h₁ (Option.some.inj ht)
  · rw [hi] at ht
    exact h₂ (Option.some.inj ht)

theorem release (h : OkWith [] 0 p) (hi : p.tasks[i]? = some (.holding c)) :
    OkWith [] 0 (p.release i c) := by
  have hw := h.not_queued hi nofun nofun
  rw [Pool.release]
  split
  · exact h.setTask hi (fun hmem => absurd hmem hw) (fun _ => rfl) rfl fun _ _ => rfl
  · next hc =>
    have hf : OkWith [c] 1 (p.setTask i .finished) :=
      h.setTask hi (fun hmem => absurd hmem hw) (fun c' => (count_hand c [] c').symm) rfl
        fun _ _ => rfl
    exact hf.returnIdle (Bool.eq_false_iff.2 hc)

theorem endTransaction (h : OkWith hand k p) (c : Nat) :
    OkWith hand k { p with inTransaction := Function.update p.inTransaction c false } := by
  refine ⟨h.owned, h.counted, h.queue, h.queued, ?_, h.drops, h.safe⟩
  intro c' hc'
  dsimp only at hc'
  by_cases heq : c' = c
  · rw [heq, Function.update_self] at hc'
    cases hc'
  · rw [Function.update_of_ne heq] at hc'
    exact h.clean c' hc'

theorem rolledBack (h : OkWith [] 0 p) (hi : p.tasks[i]? = some (.rollingBack c)) :
    OkWith [] 0 (p.rolledBack i c) := by
  have hw := h.not_queued hi nofun nofun
  have hf : OkWith [c] 1 (Pool.setTask
      { p with inTransaction := Function.update p.inTransaction c false } i .finished) :=
    (h.endTransaction c).setTask hi (fun hmem => absurd hmem hw)
      (fun c' => (count_hand c [] c').symm) rfl fun _ _ => rfl
  have hc : (Pool.setTask { p with inTransaction := Function.update p.inTransaction c false } i
      .finished).inTransaction c = false := Function.update_self ..
  have hd := hf.decrementGuarded
  rw [← inTransaction_decrementGuarded] at hc
  rw [Pool.rolledBack]
  split
  · exact OkWith.drop (l := [c]) hd nofun nofun
  · split
    · next hq => exact hd.hand_over hc hq
    · exact hd.push hc

theorem popIdle_eq (isAlive : Nat → Bool) (l : List Nat) :
    l = (Pool.popIdle isAlive l).1 ++ ((Pool.popIdle isAlive l).2.1.toList ++
      (Pool.popIdle isAlive l).2.2) ∧ ∀ d ∈ (Pool.popIdle isAlive l).1, isAlive d = false := by
  induction l with
  | nil => exact ⟨rfl, nofun⟩
  | cons c l ih =>
    rw [Pool.popIdle]
    split
    · exact ⟨rfl, nofun⟩
    · next hc =>
      refine ⟨congrArg (c :: ·) ih.1, ?_⟩
      intro d hd
      rcases List.mem_cons.1 hd with rfl | hd
      · exact Bool.eq_false_iff.2 hc
      · exact ih.2 d hd

theorem take (h : OkWith hand k p) (hi : p.idle = l ++ rest) :
    OkWith (l ++ hand) k { p with idle := rest } := by
  refine ⟨?_, h.counted, h.queue, h.queued, ?_, h.drops, h.safe⟩
  · intro c
    have h₁ := h.owned c
    rw [hi, List.count_append] at h₁
    change rest.count c + total (Task.has c) p.tasks + p.checker.has c +
      (p.dropped.map Prod.fst).count c + (l ++ hand).count c = if c < p.made then 1 else 0
    rw [List.count_append]
    omega
  · intro c hc
    obtain ⟨h₁, h₂, h₃, h₄⟩ := h.clean c hc
    rw [hi, List.count_append] at h₂
    exact ⟨h₁, (Nat.add_eq_zero_iff.1 h₂).2, h₃, h₄⟩

theorem idle_clean (h : OkWith hand k p) (hc : c ∈ p.idle) : p.inTransaction c = false := by
  by_contra ht
  have h₁ := (h.clean c (by simpa using ht)).2.1
  exact Nat.ne_of_gt (List.count_pos_iff.2 hc) h₁

theorem enqueue (h : OkWith hand k p) (hi : p.tasks[i]? = some .entered) :
    OkWith hand k (Pool.setTask { p with waiters := p.waiters ++ [i] } i (.waiting none)) := by
  have hw := h.not_queued hi nofun nofun
  have hs : OkWith hand k (p.setTask i (.waiting none)) :=
    h.setTask hi (fun _ => .inl rfl) (fun _ => rfl) rfl fun _ _ => rfl
  refine ⟨hs.owned, hs.counted, ?_, ?_, hs.clean, hs.drops, hs.safe⟩
  · exact List.nodup_append.2 ⟨h.queue, List.nodup_cons.2 ⟨nofun, List.nodup_nil⟩, by
      rintro a ha b hb rfl
      exact hw (List.mem_singleton.1 hb ▸ ha)⟩
  · intro w hmem
    rcases List.mem_append.1 hmem with hmem | hmem
    · exact hs.queued w hmem
    · rw [List.mem_singleton.1 hmem]
      obtain ⟨hlt, -⟩ := List.getElem?_eq_some_iff.1 hi
      exact .inl (List.getElem?_set_self hlt)

theorem lookUp (h : OkWith [] 0 p) (hi : p.tasks[i]? = some .entered) (config : DbConfig)
    (recent : Bool) : OkWith [] 0 (p.lookUp config i recent) := by
  have hw := h.not_queued hi nofun nofun
  obtain ⟨hl, hdead⟩ := popIdle_eq p.isAlive p.idle
  have hclean : ∀ c, (Pool.popIdle p.isAlive p.idle).2.1 = some c → p.inTransaction c = false := by
    intro c hc
    apply h.idle_clean
    rw [hl, hc]
    exact List.mem_append_right _ List.mem_cons_self
  rw [Pool.lookUp]
  generalize Pool.popIdle p.isAlive p.idle = found at hl hdead hclean
  obtain ⟨dead, found, rest⟩ := found
  dsimp only at hl hdead hclean ⊢
  rw [← List.append_assoc] at hl
  have ht := h.take hl
  rw [List.append_nil] at ht
  have hd : OkWith found.toList 0 (Pool.drop { p with idle := rest } dead .notAlive) :=
    ht.drop nofun fun _ => hdead
  cases found with
  | some c =>
    have hc := hclean c rfl
    dsimp only
    have hi' : (Pool.drop { p with idle := rest } dead .notAlive).tasks[i]? = some .entered := hi
    cases recent with
    | true =>
      exact hd.increment.setTask hi' (fun hmem => absurd hmem hw) (count_hand c []) rfl
        fun _ _ => rfl
    | false =>
      refine hd.increment.setTask hi' (fun hmem => absurd hmem hw) (count_hand c []) rfl ?_
      exact free_hand hc
  | none =>
    dsimp only
    split
    · exact hd.increment.setTask hi (fun hmem => absurd hmem hw) (fun _ => rfl) rfl fun _ _ => rfl
    · exact hd.enqueue hi

theorem cleanUp (h : OkWith [] 0 p) (hi : p.tasks[i]? = some (.timedOut slot)) :
    OkWith [] 0 (p.cleanUp i slot) := by
  have hf : OkWith [] 0 { p with waiters := p.waiters.filter (· ≠ i) } :=
    ⟨h.owned, h.counted, h.queue.filter _, fun w hw => h.queued w (List.mem_of_mem_filter hw),
      h.clean, h.drops, h.safe⟩
  have hw : i ∉ p.waiters.filter (· ≠ i) := by
    intro hmem
    simpa using List.of_mem_filter hmem
  rw [Pool.cleanUp.eq_def]
  cases slot with
  | none => exact hf.setTask hi (fun hmem => absurd hmem hw) (fun _ => rfl) rfl fun _ _ => rfl
  | some c =>
    have hn := h.not_queued hi nofun nofun
    dsimp only
    rw [decide_eq_false hn, if_neg Bool.false_ne_true]
    exact hf.increment.setTask hi (fun hmem => absurd hmem hw) (fun _ => rfl) rfl fun _ _ => rfl

theorem trim_count (m : Nat) (expired : Nat → Bool) (l : List Nat) (n c : Nat) :
    (Pool.trim m expired l n).1.count c + (Pool.trim m expired l n).2.count c = l.count c := by
  induction l generalizing n with
  | nil => rfl
  | cons x l ih =>
    rw [Pool.trim]
    split
    · rfl
    split
    · have := ih (n - 1)
      dsimp only
      rw [List.count_cons, List.count_cons]
      omega
    · have := ih n
      dsimp only
      rw [List.count_cons, List.count_cons]
      omega

theorem move (h : OkWith hand k p) (idle : List Nat) (checker : Checker) (activeCount : Nat)
    (hidle : ∀ c, idle.count c + checker.has c + hand'.count c =
      p.idle.count c + p.checker.has c + hand.count c)
    (hle : ∀ c, p.idle.count c + p.checker.has c = 0 → idle.count c = 0 ∧ checker.has c = 0)
    (hcount : activeCount + p.checker.size + k = p.activeCount + checker.size + k') :
    OkWith hand' k' { p with idle := idle, checker := checker, activeCount := activeCount } := by
  refine ⟨?_, ?_, h.queue, h.queued, ?_, h.drops, h.safe⟩
  · intro c
    have h₁ := h.owned c
    have h₂ := hidle c
    change idle.count c + total (Task.has c) p.tasks + checker.has c +
      (p.dropped.map Prod.fst).count c + hand'.count c = if c < p.made then 1 else 0
    omega
  · have h₁ := h.counted
    dsimp only
    omega
  · intro c hc
    obtain ⟨h₁, h₂, h₃, h₄⟩ := h.clean c hc
    obtain ⟨h₅, h₆⟩ := hle c (by omega)
    exact ⟨h₁, h₅, h₃, h₆⟩

theorem giveBack_eq (p : Pool) (h : size ≤ p.activeCount) :
    p.giveBack size = { p with activeCount := p.activeCount - size } := by
  rw [Pool.giveBack, if_pos h]

theorem make (h : OkWith hand k p) : OkWith (p.made :: hand) k p.make := by
  have hnone : ∀ c, p.inTransaction c = true → c < p.made := fun c hc => (h.clean c hc).1
  refine ⟨?_, h.counted, h.queue, h.queued, ?_, h.drops, h.safe⟩
  · intro c
    have h₁ := h.owned c
    change p.idle.count c + total (Task.has c) p.tasks + p.checker.has c +
      (p.dropped.map Prod.fst).count c + (p.made :: hand).count c = if c < p.made + 1 then 1 else 0
    rw [List.count_cons]
    by_cases hc : c < p.made
    · rw [if_pos hc] at h₁
      have hne : ¬(p.made == c) = true := fun heq => Nat.ne_of_gt hc (beq_iff_eq.1 heq)
      rw [if_neg hne, if_pos (Nat.lt_succ_of_lt hc)]
      omega
    · rw [if_neg hc] at h₁
      by_cases heq : p.made = c
      · rw [if_pos (beq_iff_eq.2 heq), if_pos (by omega)]
        omega
      · have hne : ¬(p.made == c) = true := fun h => heq (beq_iff_eq.1 h)
        rw [if_neg hne, if_neg (by omega)]
        omega
  · intro c hc
    obtain ⟨h₁, h₂⟩ := h.clean c hc
    exact ⟨Nat.lt_succ_of_lt h₁, h₂⟩

theorem made_clean (h : OkWith hand k p) : p.inTransaction p.made = false := by
  by_contra hc
  exact Nat.lt_irrefl _ (h.clean p.made (by simpa using hc)).1

end OkWith

section Steps
variable {config : DbConfig} {p p' : Pool}

theorem ok_pinged (config : DbConfig) (h : Ok p) (hi : p.tasks[i]? = some (.pinging c)) (ok recent : Bool) :
    Ok (if ok then p.setTask i (.holding c)
      else ((p.drop [c] .failedPing).setTask i .entered).decrement.lookUp config i recent) := by
  have hw := h.not_queued hi nofun nofun
  cases ok with
  | true => exact h.setTask hi (fun hmem => absurd hmem hw) (fun _ => rfl) rfl fun _ _ => rfl
  | false =>
    have hs : OkWith [c] 1 (p.setTask i .entered) :=
      h.setTask hi (fun hmem => absurd hmem hw) (fun c' => (OkWith.count_hand c [] c').symm) rfl
        fun _ _ => rfl
    have hd : OkWith [] 1 ((p.setTask i .entered).drop [c] .failedPing) :=
      OkWith.drop (l := [c]) hs nofun nofun
    obtain ⟨hlt, -⟩ := List.getElem?_eq_some_iff.1 hi
    exact hd.decrement.lookUp (List.getElem?_set_self hlt) config recent

theorem ok_created (h : Ok p) (hi : p.tasks[i]? = some .creating) (ok : Bool) :
    Ok (if ok then p.make.setTask i (.holding p.made) else p.decrement.setTask i .finished) := by
  have hw := h.not_queued hi nofun nofun
  cases ok with
  | true =>
    exact h.make.setTask hi (fun hmem => absurd hmem hw) (OkWith.count_hand p.made []) rfl
      fun _ _ => rfl
  | false =>
    have hs : OkWith [] 1 (p.setTask i .finished) :=
      h.setTask hi (fun hmem => absurd hmem hw) (fun _ => rfl) rfl fun _ _ => rfl
    exact hs.decrement

theorem ok_checked (h : Ok p) (hc : p.checker = .checking (c :: todo) alive size true) (ok : Bool) :
    Ok (if ok then { p with checker := .checking todo (alive ++ [c]) size false }
      else Pool.drop { p with checker := .checking todo alive size false } [c] .failedPing) := by
  cases ok with
  | true =>
    refine h.move p.idle (.checking todo (alive ++ [c]) size false) p.activeCount ?_ ?_ ?_
    · intro c'
      rw [hc, Checker.has, Checker.has, List.count_cons, List.count_append, List.count_singleton]
      omega
    · intro c' hz
      rw [hc, Checker.has, List.count_cons] at hz
      rw [Checker.has, List.count_append, List.count_singleton]
      omega
    · rw [hc]
      rfl
  | false =>
    have hm : OkWith [c] 0 { p with checker := .checking todo alive size false } := by
      refine h.move p.idle (.checking todo alive size false) p.activeCount ?_ ?_ ?_
      · intro c'
        rw [hc, Checker.has, Checker.has, List.count_cons, List.count_cons]
        omega
      · intro c' hz
        rw [hc, Checker.has, List.count_cons] at hz
        rw [Checker.has]
        omega
      · rw [hc]
        rfl
    exact OkWith.drop (l := [c]) hm nofun nofun

theorem okWith_putBack (h : Ok p) (hc : p.checker = .checking todo alive size busy)
    (checker : Checker) (hn : ∀ c, checker.has c = 0) (hz : checker.size = 0) :
    OkWith todo 0 ({ p with checker := checker, idle := alive.reverse ++ p.idle }.giveBack size) := by
  have hcount := h.counted
  rw [hc, Checker.size] at hcount
  rw [OkWith.giveBack_eq _ (by dsimp only; omega)]
  refine h.move (alive.reverse ++ p.idle) checker (p.activeCount - size) ?_ ?_ ?_
  · intro c
    rw [hn, hc, Checker.has, List.count_append, List.count_reverse, List.count_nil]
    omega
  · intro c hc'
    rw [hc, Checker.has] at hc'
    rw [hn, List.count_append, List.count_reverse]
    omega
  · rw [hz, hc, Checker.size]
    omega

theorem ok_endCheck (h : Ok p) (hc : p.checker = .checking [] alive size busy) :
    Ok (p.endCheck config alive size) :=
  okWith_putBack h hc _ (fun _ => rfl) rfl

theorem ok_setTransaction {i c : Nat} (h : Ok p) (hi : p.tasks[i]? = some (.holding c)) (value : Bool) :
    Ok { p with inTransaction := Function.update p.inTransaction c value } := by
  refine ⟨h.owned, h.counted, h.queue, h.queued, ?_, h.drops, h.safe⟩
  intro c' hc'
  dsimp only at hc'
  by_cases heq : c' = c
  · subst heq
    have h₁ := h.owned c'
    have h₂ := total_eraseIdx (f := Task.has c') hi
    have h₃ := total_eraseIdx (f := Task.free c') hi
    have h₄ := total_mono (Task.free_le c') (p.tasks.eraseIdx i)
    have h₅ : Task.has c' (.holding c') = 1 := if_pos rfl
    have h₆ : Task.free c' (.holding c') = 0 := rfl
    have hmade : c' < p.made := by
      by_contra hn
      rw [if_neg hn] at h₁
      omega
    rw [if_pos hmade] at h₁
    dsimp only
    omega
  · rw [Function.update_of_ne heq] at hc'
    exact h.clean c' hc'

theorem ok_trim (h : Ok p) (expired : Nat → Bool) :
    Ok (Pool.drop
      { p with
        idle := (Pool.trim config.minConnections expired p.idle.reverse p.idle.length).1.reverse }
      (Pool.trim config.minConnections expired p.idle.reverse p.idle.length).2 .idleTrim) := by
  have hcount := OkWith.trim_count config.minConnections expired p.idle.reverse p.idle.length
  generalize Pool.trim config.minConnections expired p.idle.reverse p.idle.length = kept at hcount
  have hm : OkWith (kept.2 ++ []) 0 { p with idle := kept.1.reverse } := by
    refine h.move kept.1.reverse p.checker p.activeCount ?_ ?_ rfl
    · intro c
      have := hcount c
      rw [List.count_reverse] at this
      rw [List.count_reverse, List.append_nil, List.count_nil]
      omega
    · intro c hz
      have := hcount c
      rw [List.count_reverse] at this
      rw [List.count_reverse]
      omega
  exact hm.drop nofun nofun

theorem Ok.step (h : Ok p) (hs : Db.step config p label = some p') : Ok p' := by
  -- a step of the checker that gives nothing away and takes nothing
  have hplain (checker : Checker) (hc : p.checker.size = checker.size) (hhas : ∀ c, p.checker.has c = checker.has c) :
      Ok { p with checker := checker } :=
    h.move p.idle checker p.activeCount (fun c => by rw [hhas])
      (fun c hz => by rw [hhas] at hz; exact Nat.add_eq_zero_iff.1 hz) (by rw [hc])
  cases step_does hs with
  | acquire =>
    refine ⟨?_, ?_, h.queue, ?_, ?_, h.drops, h.safe⟩
    · intro c
      have h₁ := h.owned c
      change p.idle.count c + total (Task.has c) (p.tasks ++ [.entered]) + p.checker.has c +
        (p.dropped.map Prod.fst).count c + 0 = if c < p.made then 1 else 0
      rw [total_append]
      exact h₁
    · have h₁ := h.counted
      dsimp only
      rw [total_append]
      exact h₁
    · intro w hw
      have hq := h.queued w hw
      have hlt : w < p.tasks.length := by
        rcases hq with hq | hq
        · exact (List.getElem?_eq_some_iff.1 hq).1
        · exact (List.getElem?_eq_some_iff.1 hq).1
      dsimp only
      rw [List.getElem?_append_left hlt]
      exact hq
    · intro c hc
      obtain ⟨h₁, h₂, h₃, h₄⟩ := h.clean c hc
      refine ⟨h₁, h₂, ?_, h₄⟩
      dsimp only
      rw [total_append]
      exact h₃
  | lock hi => exact OkWith.lookUp h hi config _
  | pinged hi => exact ok_pinged config h hi true false
  | pingFailed hi => exact ok_pinged _ h hi false _
  | created hi => exact ok_created h hi true
  | notCreated hi => exact ok_created h hi false
  | handed hi =>
    have hw := h.not_queued hi nofun nofun
    exact h.increment.setTask hi (fun hmem => absurd hmem hw) (fun _ => rfl) rfl fun _ _ => rfl
  | timedOut hi => exact h.setTask hi (fun _ => .inr rfl) (fun _ => rfl) rfl fun _ _ => rfl
  | cleanUp hi => exact OkWith.cleanUp h hi
  | release hi => exact OkWith.release h hi
  | rolledBack hi => exact OkWith.rolledBack h hi
  | @rollbackFailed i c hi =>
    have hw := h.not_queued hi nofun nofun
    have hf : OkWith [c] 1 (p.setTask i .finished) :=
      h.setTask hi (fun hmem => absurd hmem hw) (fun c' => (OkWith.count_hand c [] c').symm) rfl
        fun _ _ => rfl
    have hd : OkWith [] 1 ((p.setTask i .finished).drop [c] .failedRollback) :=
      OkWith.drop (l := [c]) hf nofun nofun
    exact hd.decrementGuarded
  | setTransaction hi => exact ok_setTransaction h hi _
  | @dies c =>
    refine ⟨h.owned, h.counted, h.queue, h.queued, h.clean, ?_, h.safe⟩
    intro x hx
    obtain ⟨h₁, h₂⟩ := h.drops x hx
    refine ⟨h₁, fun hn => ?_⟩
    dsimp only
    by_cases heq : x.1 = c
    · rw [heq, Function.update_self]
    · rw [Function.update_of_ne heq]
      exact h₂ hn
  | trim _ hkept =>
    subst hkept
    exact ok_trim h _
  | startCheck hc =>
    have hnone : ∀ c, p.checker.has c = 0 := fun c => by rw [hc]; rfl
    have hsize : p.checker.size = 0 := by rw [hc]; rfl
    refine h.move [] (.checking p.idle.reverse [] p.idle.length false) _ ?_ ?_ ?_
    · intro c
      rw [hnone, Checker.has, List.count_reverse, List.count_nil]
      omega
    · intro c hz
      rw [hnone] at hz
      rw [Checker.has, List.count_reverse, List.count_nil]
      exact ⟨rfl, hz⟩
    · rw [hsize]
      rfl
  | @checkEnded c todo alive size hc =>
    have hp := okWith_putBack h hc .stopped (fun _ => rfl) rfl
    rw [← List.append_nil (c :: todo)] at hp
    exact hp.drop nofun nofun
  | checked hc => exact ok_checked h hc true
  | checkFailed hc => exact ok_checked h hc false
  | endCheck hc => exact ok_endCheck h hc
  | noCheck hc | check hc | full hc | noReplenish hc | replenish hc | notReplenished hc =>
    exact hplain _ (by rw [hc]; rfl) fun c => by rw [hc]; rfl
  | @replenished n hc =>
    have hp := h.make.push (p := p.make) h.made_clean
    exact hp.move (p.made :: p.idle) (.replenishing n false) p.activeCount
      (fun _ => by rw [show p.make.checker = _ from hc]; rfl)
      (fun c hz => by rw [show p.make.checker = _ from hc] at hz; exact Nat.add_eq_zero_iff.1 hz)
      (by rw [show p.make.checker = _ from hc]; rfl)
  | shutdown => exact ⟨h.owned, h.counted, h.queue, h.queued, h.clean, h.drops, h.safe⟩
  | clear =>
    have ht := h.take (p := p) (List.append_nil p.idle).symm
    have hd : OkWith [] 0 (Pool.drop { p with idle := [] } p.idle .shutdown) :=
      ht.drop nofun nofun
    exact ⟨hd.owned, hd.counted, List.nodup_nil, nofun, hd.clean, hd.drops, hd.safe⟩

theorem ok_start (n : Nat) : Ok (start n) := by
  refine ⟨?_, rfl, List.nodup_nil, nofun, nofun, nofun, rfl⟩
  intro c
  change (List.range n).reverse.count c + 0 + 0 + 0 + 0 = if c < n then 1 else 0
  rw [List.count_reverse]
  exact List.count_range

theorem ok_reaches (h : Reaches config C (start n) p) : Ok p := by
  induction h with
  | start => exact ok_start n
  | step _ _ hs ih => exact ih.step hs

end Steps

end Hical.Db
