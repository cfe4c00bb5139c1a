import Hical.Timer.Contract

/-! Callbacks that throw out of the batch they run in. -/

namespace Hical.Timer

namespace TimerServiceCore

/-- The loop of `fireDue`, which a callback that throws leaves with the nodes behind it. -/
def runThrowing (calls : Nat → List Call) (throws : Nat → Bool) (now : Int) :
    List Node → TimerServiceCore → TimerServiceCore × Option (List Node)
  | [], c => (c, none)
  | node :: due, c =>
    if c.stopped then (c, none)
    else if node.id ∈ c.cancelled then
      runThrowing calls throws now due { c with cancelled := c.cancelled.erase node.id }
    else if node.callback then
      let c := (calls node.id).foldl call (c.note (.ran node now))
      if throws node.id then (c, some due) else runThrowing calls throws now due c
    else runThrowing calls throws now due c

def firing (c : TimerServiceCore) (calls : Nat → List Call) (throws : Nat → Bool) (now : Int) :
    TimerServiceCore × Option (List Node) :=
  runThrowing calls throws now (c.heap.takeWhile (·.deadline ≤ now))
    { c with armedDeadline := none, past := .fired :: c.past, inFireDue := true,
             heap := c.heap.dropWhile (·.deadline ≤ now) }

/-- `fireDue`; past an exception only the guard does its work. -/
def fireDueThrowing (c : TimerServiceCore) (calls : Nat → List Call) (throws : Nat → Bool) (now : Int) :
    TimerServiceCore :=
  if c.stopped then { c with armedDeadline := none }
  else
    match c.firing calls throws now with
    | (c, none) => { c.rearm with inFireDue := false }
    | (c, some _) => { c with inFireDue := false }

end TimerServiceCore

open TimerServiceCore

/-- A node is awaited: the timer waits until then or less, or a handler is on the way. -/
def Awaited (c : TimerServiceCore) (node : Node) : Prop :=
  c.waiting = true ∧ c.expiry ≤ node.deadline ∨ 0 < c.ready

/-- No callback is lost, and every timer left is awaited. -/
structure Survives (c : TimerServiceCore) : Prop where
  account : ∀ node, .scheduled node ∈ c.past → node.callback = true →
    (∃ now, .ran node now ∈ c.past) ∨ .cancelled node.id ∈ c.past ∨ node ∈ c.heap ∨ .shutdown ∈ c.past
  armed : c.stopped = false → ∀ node ∈ c.heap, .cancelled node.id ∉ c.past → Awaited c node

/-- A batch that is left over does no harm: the service was shut down by then, or what is left over
is cancelled, and a callback scheduled a timer or what is in the heap is awaited from before. -/
def Spared (c : TimerServiceCore) (left : List Node) (c' : TimerServiceCore) : Prop :=
  c'.stopped = true ∨ (∀ node ∈ left, node.callback = true → node.id ∈ c'.cancelled) ∧
    ((∃ node, .scheduled node ∈ batch c'.past) ∨ ∀ node ∈ c'.heap, node.id ∉ c'.cancelled → Awaited c node)

/-- No callback that is reached throws, or its throw does no harm. -/
def Harmless (c : TimerServiceCore) (calls : Nat → List Call) (throws : Nat → Bool) (now : Int) : Prop :=
  c.stopped = true ∨ ∀ left, (c.firing calls throws now).2 = some left → Spared c left (c.firing calls throws now).1

section Batch
variable {c c₀ : TimerServiceCore} {due : List Node}

theorem runThrowing_of_calm (calls : Nat → List Call) (now : Int) (due : List Node) (c : TimerServiceCore) :
    runThrowing calls (fun _ => false) now due c = (runDue calls now due c, none) := by
  induction due generalizing c with
  | nil => rfl
  | cons node due ih =>
    rw [runThrowing, runDue]
    split
    · rfl
    · split
      · exact ih _
      · split
        · exact ih _
        · exact ih _

theorem fireDueThrowing_of_calm (c : TimerServiceCore) (calls : Nat → List Call) (now : Int) :
    c.fireDueThrowing calls (fun _ => false) now = c.fireDue calls now := by
  rw [fireDueThrowing, firing, runThrowing_of_calm, fireDue]
  rfl

theorem Inv.runThrowing (calls : Nat → List Call) (throws : Nat → Bool) (now : Int) (due : List Node)
    (c : TimerServiceCore) (h : Inv due c) (hdue : ∀ n ∈ due, n.deadline ≤ now) :
    Inv ((TimerServiceCore.runThrowing calls throws now due c).2.getD [])
      (TimerServiceCore.runThrowing calls throws now due c).1 := by
  induction due generalizing c with
  | nil => exact h
  | cons node due ih =>
    have hrest : ∀ n ∈ due, n.deadline ≤ now := fun n hn => hdue n (.tail _ hn)
    rw [TimerServiceCore.runThrowing]
    split
    next hs => exact h.abandon _ hs
    next hs =>
      have hs : c.stopped = false := Bool.eq_false_iff.mpr hs
      split
      next hm => exact ih _ (h.skip hm) hrest
      next hm =>
        split
        · have hran := (h.ran hs hm (hdue node List.mem_cons_self)).calls (calls node.id)
          dsimp only
          split
          · exact hran
          · exact ih _ hran hrest
        next hcb => exact ih _ (h.forget fun _ ht => absurd ht hcb) hrest

/-- Whether the wait is that of a timer scheduled since the batch began, or that from before it. -/
def Waits (c₀ c : TimerServiceCore) : Prop :=
  c.stopped = true ∨ (∃ node, .scheduled node ∈ batch c.past) ∧ Armed c ∨
    (∀ node, .scheduled node ∉ batch c.past) ∧
      c.waiting = c₀.waiting ∧ c.expiry = c₀.expiry ∧ c.ready = c₀.ready

theorem batch_cons {past : List Happened} (h : x ≠ .fired) : batch (x :: past) = x :: batch past :=
  List.takeWhile_cons_of_pos (by simpa using h)

theorem Waits.note (h : Waits c₀ c) (hf : x ≠ .fired) (hs : ∀ node, x ≠ .scheduled node) : Waits c₀ (c.note x) := by
  have hb : batch (c.note x).past = x :: batch c.past := batch_cons hf
  rcases h with h | ⟨⟨node, hn⟩, h⟩ | ⟨hn, h⟩
  · exact .inl h
  · refine .inr (.inl ⟨⟨node, ?_⟩, h⟩)
    rw [hb]
    exact .tail _ hn
  · refine .inr (.inr ⟨fun node hm => ?_, h⟩)
    rw [hb] at hm
    rcases List.mem_cons.mp hm with heq | hm
    · exact hs node heq.symm
    · exact hn node hm

theorem Waits.marks (h : Waits c₀ c) (marks : Finset Nat) : Waits c₀ { c with cancelled := marks } := h

theorem past_rearm (c : TimerServiceCore) : c.rearm.past = c.past := by
  obtain ⟨armed, expiry, waiting, he, -⟩ := rearm_spec c
  rw [he]

theorem Waits.schedule (h : Waits c₀ c) (deadline : Int) (callback : Bool) : Waits c₀ (c.schedule deadline callback).1 := by
  rw [TimerServiceCore.schedule]
  split
  · exact h
  · apply Or.inr
    apply Or.inl
    refine ⟨⟨⟨deadline, c.nextId, callback⟩, ?_⟩, armed_rearm _⟩
    dsimp only
    rw [past_rearm]
    change _ ∈ batch (.scheduled ⟨deadline, c.nextId, callback⟩ :: c.past)
    rw [batch_cons (by simp)]
    exact List.mem_cons_self

theorem Waits.call (h : Waits c₀ c) (call : Call) : Waits c₀ (c.call call) := by
  cases call with
  | schedule deadline callback => exact h.schedule deadline callback
  | scheduleAfter delay now callback => exact h.schedule _ callback
  | cancel id =>
    change Waits c₀ (c.cancel id).1
    rw [TimerServiceCore.cancel]
    split
    · exact h
    · have hnote : Waits c₀ (c.note (.cancelled id)) := h.note (by simp) (by simp)
      dsimp only
      split
      · exact hnote
      · obtain ⟨marks, he, -⟩ := compactCancelled_spec
          { c.note (.cancelled id) with cancelled := insert id (c.note (.cancelled id)).cancelled }
        rw [he]
        exact hnote.marks marks
  | shutdown =>
    change Waits c₀ c.shutdown
    rw [TimerServiceCore.shutdown]
    split
    · exact h
    · exact .inl rfl

theorem Waits.calls (h : Waits c₀ c) (calls : List Call) : Waits c₀ (calls.foldl TimerServiceCore.call c) := by
  induction calls generalizing c with
  | nil => exact h
  | cons call calls ih => exact ih (h.call call)

theorem Waits.runThrowing (calls : Nat → List Call) (throws : Nat → Bool) (now : Int) (due : List Node)
    (c : TimerServiceCore) (h : Waits c₀ c) : Waits c₀ (TimerServiceCore.runThrowing calls throws now due c).1 := by
  induction due generalizing c with
  | nil => exact h
  | cons node due ih =>
    rw [TimerServiceCore.runThrowing]
    split
    · exact h
    · split
      · exact ih _ (h.marks _)
      · split
        · have hran := (h.note (x := .ran node now) (by simp) (by simp)).calls (calls node.id)
          dsimp only
          split
          · exact hran
          · exact ih _ hran
        · exact ih _ h

theorem waits_firing (c : TimerServiceCore) (calls : Nat → List Call) (throws : Nat → Bool) (now : Int) :
    Waits c (c.firing calls throws now).1 := by
  apply Waits.runThrowing
  apply Or.inr
  apply Or.inr
  refine ⟨fun node hm => ?_, rfl, rfl, rfl⟩
  simp [batch] at hm

theorem Inv.fired (h : Inv [] { c with armedDeadline := none }) (calls : Nat → List Call) (throws : Nat → Bool)
    (now : Int) : Inv ((c.firing calls throws now).2.getD []) (c.firing calls throws now).1 := by
  apply (h.takeOut now).runThrowing
  intro n hn
  simpa using List.mem_takeWhile_imp hn

theorem Inv.awaited (h : Inv due c) (ha : Armed c) (hs : c.stopped = false) (hn : node ∈ c.heap) : Awaited c node := by
  cases hh : c.heap with
  | nil => simp [hh] at hn
  | cons top nodes =>
    obtain ⟨d, hd, hle⟩ := ha hs top nodes hh
    have hord := h.heapOrder
    rw [hh] at hn hord
    have hle := Int.le_trans hle (hord.head_le hn)
    rcases h.wait d hd with ⟨hw, he⟩ | hr
    · exact .inl ⟨hw, he ▸ hle⟩
    · exact .inr hr

theorem Inv.survives (h : Inv [] c) (ha : Armed c) : Survives c :=
  ⟨h.account, fun hs _ hn _ => h.awaited ha hs hn⟩

theorem Inv.leave (left : List Node) (h : Inv left c)
    (hl : ∀ node ∈ left, node.callback = true → .cancelled node.id ∈ c.past ∨ .shutdown ∈ c.past) : Inv [] c := by
  induction left with
  | nil => exact h
  | cons node left ih =>
    apply ih
    · exact h.forget fun _ hcb => .inr (hl node List.mem_cons_self hcb)
    · exact fun n hn => hl n (.tail _ hn)

theorem Spared.inv (hs : Spared c₀ left c) (h : Inv left c) : Inv [] { c with inFireDue := false } := by
  have hleft : Inv [] c := by
    apply h.leave
    intro node hn hcb
    rcases hs with hs | ⟨hl, -⟩
    · exact .inr (h.stop.mp hs)
    · exact .inl (h.marks _ (hl node hn hcb))
  exact { hleft with firing := fun _ => rfl }

theorem survives_left_iff (h : Inv left c) (hw : Waits c₀ c) :
    Survives { c with inFireDue := false } ↔ Spared c₀ left c := by
  constructor
  · intro hsurv
    by_cases hs : c.stopped = true
    · exact .inl hs
    have hs := Bool.eq_false_iff.mpr hs
    refine .inr ⟨fun node hn hcb => ?_, ?_⟩
    · have hmem : node ∈ left ++ c.heap := List.mem_append_left _ hn
      rcases hsurv.account node (h.known node hmem) hcb with ⟨t, ht⟩ | hc | hheap | hd
      · exact absurd rfl (h.notRan node hmem node t ht)
      · exact h.marked hs node hmem hc
      · have hdistinct := h.distinct
        rw [List.map_append, List.nodup_append] at hdistinct
        exact absurd rfl (hdistinct.2.2 _ (List.mem_map_of_mem hn) _ (List.mem_map_of_mem hheap))
      · exact absurd (h.stop.mpr hd) (by simp [hs])
    · rcases hw with hstop | ⟨hsched, -⟩ | ⟨-, hwait, hexp, hready⟩
      · exact absurd hstop (by simp [hs])
      · exact .inl hsched
      · refine .inr fun node hn hc => ?_
        have haw := hsurv.armed hs node hn fun hp => hc (h.marked hs node (List.mem_append_right _ hn) hp)
        rw [Awaited] at haw ⊢
        rw [← hwait, ← hexp, ← hready]
        exact haw
  · intro hspared
    constructor
    · exact (hspared.inv h).account
    · intro hs node hn hc
      rcases hspared with hstop | ⟨-, hsched | haw⟩
      · exact absurd hstop (by simpa using hs)
      · rcases hw with hstop | ⟨-, ha⟩ | ⟨hno, -⟩
        · exact absurd hstop (by simpa using hs)
        · exact h.awaited ha hs hn
        · obtain ⟨m, hm⟩ := hsched
          exact absurd hm (hno m)
      · rcases hw with hstop | ⟨-, ha⟩ | ⟨-, hwait, hexp, hready⟩
        · exact absurd hstop (by simpa using hs)
        · exact h.awaited ha hs hn
        · have hbefore := haw node hn fun hm => hc (h.marks _ hm)
          rw [Awaited] at hbefore ⊢
          dsimp only
          rw [hwait, hexp, hready]
          exact hbefore

theorem fireDueThrowing_survives_iff (h : Inv [] { c with armedDeadline := none }) (calls : Nat → List Call)
    (throws : Nat → Bool) (now : Int) :
    Survives (c.fireDueThrowing calls throws now) ↔ Harmless c calls throws now := by
  rw [fireDueThrowing, Harmless]
  by_cases hs : c.stopped = true
  · rw [if_pos hs]
    exact ⟨fun _ => .inl hs, fun _ => h.survives fun hr => absurd hr (by simp [hs])⟩
  rw [if_neg hs, or_iff_right hs]
  have hi := h.fired calls throws now
  have hw := waits_firing c calls throws now
  rcases hf : c.firing calls throws now with ⟨c', none | left⟩
  · rw [hf] at hi
    have hsurv : Survives { c'.rearm with inFireDue := false } :=
      Inv.survives { hi.rearm with firing := fun _ => rfl } (armed_rearm _)
    exact ⟨fun _ left hl => (nomatch hl), fun _ => hsurv⟩
  · rw [hf] at hi hw
    dsimp only
    rw [survives_left_iff hi hw]
    constructor
    · intro hspared left' hl
      cases hl
      exact hspared
    · intro hspared
      exact hspared left rfl

theorem Inv.fireDueThrowing (h : Inv [] { c with armedDeadline := none }) (calls : Nat → List Call)
    (throws : Nat → Bool) (now : Int) (hh : Harmless c calls throws now) :
    Inv [] (c.fireDueThrowing calls throws now) := by
  rw [TimerServiceCore.fireDueThrowing]
  by_cases hs : c.stopped = true
  · rw [if_pos hs]
    exact h
  rw [if_neg hs]
  have hi := h.fired calls throws now
  have hh := hh.resolve_left hs
  rcases hf : c.firing calls throws now with ⟨c', none | left⟩
  · rw [hf] at hi
    exact { hi.rearm with firing := fun _ => rfl }
  · rw [hf] at hi hh
    exact (hh left rfl).inv hi

end Batch

/-- The services that calls, expiries and handlers lead to, with callbacks that throw where it does no
harm. -/
inductive Reached (clock : Int) : TimerService → Prop where
  | start : Reached clock { clock }
  | step (h : Reached clock s) (hs : s.step e = some s') : Reached clock s'
  | throwing (h : Reached clock s) (hr : 0 < s.core.ready) (hn : s.clock ≤ now)
      (hh : Harmless { s.core with ready := s.core.ready - 1 } calls throws now) :
      Reached clock ⟨{ s.core with ready := s.core.ready - 1 }.fireDueThrowing calls throws now, now⟩

theorem Inv.handled {c : TimerServiceCore} (h : Inv [] c) :
    Inv [] { c with ready := c.ready - 1, armedDeadline := none } := { h with wait := by simp }

theorem Reached.inv {s : TimerService} (h : Reached clock s) : Inv [] s.core := by
  induction h with
  | start => exact inv_start
  | @step s e s' h hs ih =>
    cases e with
    | call call =>
      cases hs
      exact ih.call call
    | expire now =>
      obtain ⟨-, rfl⟩ := Option.ite_some_none_eq_some.1 hs
      exact { ih with wait := fun _ _ => .inr (Nat.succ_pos _) }
    | handle calls now =>
      obtain ⟨-, rfl⟩ := Option.ite_some_none_eq_some.1 hs
      exact (Inv.fireDue (c := { s.core with ready := s.core.ready - 1 }) ih.handled calls now).1
  | @throwing s now calls throws h hr hn hh ih =>
    exact Inv.fireDueThrowing (c := { s.core with ready := s.core.ready - 1 }) ih.handled calls throws now hh

/-- After a handler whose callbacks may throw no timer is lost and every one is awaited, exactly if
the exception, if any, did no harm. -/
theorem throwing_survives_iff {s : TimerService} (h : Reached clock s) (calls : Nat → List Call)
    (throws : Nat → Bool) (now : Int) :
    Survives ({ s.core with ready := s.core.ready - 1 }.fireDueThrowing calls throws now) ↔
      Harmless { s.core with ready := s.core.ready - 1 } calls throws now :=
  fireDueThrowing_survives_iff (c := { s.core with ready := s.core.ready - 1 }) h.inv.handled calls throws now

def twoDue : TimerService where
  core := { ((({} : TimerServiceCore).schedule 5 true).1.schedule 5 true).1 with waiting := false, ready := 1 }
  clock := 6

theorem reached_twoDue : Reached 0 twoDue := by
  have hfirst : Reached 0 ⟨(({} : TimerServiceCore).schedule 5 true).1, 0⟩ :=
    Reached.step (e := .call (.schedule 5 true)) .start rfl
  have hsecond : Reached 0 ⟨((({} : TimerServiceCore).schedule 5 true).1.schedule 5 true).1, 0⟩ :=
    Reached.step (e := .call (.schedule 5 true)) hfirst rfl
  exact Reached.step (e := .expire 6) hsecond rfl

/-- The callback that is last in its batch may throw. -/
theorem throwing_survives_last : Survives ({ twoDue.core with ready := twoDue.core.ready - 1 }.fireDueThrowing
    (fun _ => []) (fun id => id == 2) 7) := by
  apply (throwing_survives_iff reached_twoDue (fun _ => []) (fun id => id == 2) 7).2
  apply Or.inr
  intro left hl
  have hleft : left = [] := (Option.some.inj hl).symm
  subst hleft
  refine .inr ⟨fun node hn => (nomatch hn), .inr fun node hn => ?_⟩
  cases hn

/-- The second timer is lost where the callback of the first one throws. -/
theorem throwing_loses : ¬Survives ({ twoDue.core with ready := twoDue.core.ready - 1 }.fireDueThrowing
    (fun _ => []) (fun id => id == 1) 7) := by
  intro h
  have hpast : ({ twoDue.core with ready := twoDue.core.ready - 1 }.fireDueThrowing
      (fun _ => []) (fun id => id == 1) 7).past =
      [.ran ⟨5, 1, true⟩ 7, .fired, .scheduled ⟨5, 2, true⟩, .scheduled ⟨5, 1, true⟩] := rfl
  have hheap : ({ twoDue.core with ready := twoDue.core.ready - 1 }.fireDueThrowing
      (fun _ => []) (fun id => id == 1) 7).heap = [] := rfl
  have haccount := h.account ⟨5, 2, true⟩
  rw [hpast, hheap] at haccount
  simp at haccount

end Hical.Timer
