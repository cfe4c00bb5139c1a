import Mathlib.Data.List.Nodup
import Hical.Client.Gate
import Hical.Lib.Runs

namespace Hical.Client.Gate
open Ledger Impl

namespace Party

/-- The party owns a lease, or was granted the gate and did not resume. -/
def holds : Party → Nat
  | waiting w => if w.granted.isSome then 1 else 0
  | leased _ => 1
  | _ => 0

/-- The party holds by the grant `k`. -/
def has (k : Nat) : Party → Nat
  | waiting w => if w.granted = some k then 1 else 0
  | leased grant => if grant = k then 1 else 0
  | _ => 0

end Party

variable {c c' : Impl} {i : Nat} {w w' : GateWaiter} {queue : List Nat}

/-- What holds of the gate whoever has it; `queue` are the waiters that are queued. -/
structure Core (queue : List Nat) (c : Impl) : Prop where
  queued : ∀ i ∈ queue, ∃ w, c.parties[i]? = some (.waiting w) ∧ w.granted = none
  nodup : queue.Nodup
  account : ∀ k, c.released.count k + total (Party.has k) c.parties = if k < c.grants then 1 else 0
  proper : ∀ g ∈ c.history, g.abandoned = false ∧ g.wasCurrent = true

structure Inv (c : Impl) : Prop where
  core : Core c.gateWaiters c
  busy : total Party.holds c.parties = c.gateBusy.toNat
  idle : c.gateBusy = false → c.gateWaiters = []

theorem has_waiting (k : Nat) (h : w'.granted = w.granted) :
    (Party.waiting w').has k = (Party.waiting w).has k := by
  simp only [Party.has, h]

theorem holds_waiting (h : w'.granted = w.granted) :
    (Party.waiting w').holds = (Party.waiting w).holds := by
  simp only [Party.holds, h]

theorem total_setWaiting (f : Party → Nat) (hp : c.parties[i]? = some (.waiting w))
    (hf : f (.waiting w') = f (.waiting w)) :
    total f (c.setParty i (.waiting w')).parties = total f c.parties := by
  have := total_set (f := f) hp (.waiting w')
  change total f (c.parties.set i (.waiting w')) = _
  omega

theorem Core.setWaiting (h : Core queue c) (hp : c.parties[i]? = some (.waiting w))
    (hg : w'.granted = w.granted) : Core queue (c.setParty i (.waiting w')) where
  queued := fun j hj => by
    obtain ⟨v, hv, hn⟩ := h.queued j hj
    by_cases hij : i = j
    · subst hij
      cases hp.symm.trans hv
      exact ⟨w', List.getElem?_set_self (List.getElem?_eq_some_iff.mp hp).1, hg.trans hn⟩
    · exact ⟨v, by rw [setParty, List.getElem?_set_ne hij, hv], hn⟩
  nodup := h.nodup
  account := fun k => by
    rw [total_setWaiting (Party.has k) hp (has_waiting k hg)]
    exact h.account k
  proper := h.proper

theorem Inv.setWaiting (h : Inv c) (hp : c.parties[i]? = some (.waiting w))
    (hg : w'.granted = w.granted) : Inv (c.setParty i (.waiting w')) where
  core := h.core.setWaiting hp hg
  busy := by
    rw [total_setWaiting Party.holds hp (holds_waiting hg)]
    exact h.busy
  idle := h.idle

theorem inv_releaseLoop (queue : List Nat) :
    ∀ c : Impl, Core queue c → total Party.holds c.parties = 0 → c.gateBusy = true →
      Inv (releaseLoop queue c) := by
  induction queue with
  | nil =>
    intro c h hz _
    exact ⟨{ h with }, hz, fun _ => rfl⟩
  | cons i queue ih =>
    intro c h hz hb
    obtain ⟨w, hw, hn⟩ := h.queued i List.mem_cons_self
    obtain ⟨hi, hnd⟩ := List.nodup_cons.mp h.nodup
    have hrest : Core queue c :=
      ⟨fun j hj => h.queued j (.tail _ hj), hnd, h.account, h.proper⟩
    rw [releaseLoop, hw]
    dsimp only
    split
    · -- The waiter is skipped; it keeps that it was granted nothing.
      have hg : (cancelTimer { w with abandoned := true }).granted = w.granted := rfl
      exact ih _ (hrest.setWaiting hw hg) (by rw [total_setWaiting _ hw (holds_waiting hg), hz]) hb
    next hskip =>
      simp only [Bool.or_eq_true, Bool.not_eq_true', not_or, Bool.not_eq_true,
        Bool.not_eq_false] at hskip
      have hset := fun f => total_set (f := f) hw
        (.waiting (cancelTimer { w with granted := some c.grants }))
      refine ⟨⟨?_, hnd, ?_, ?_⟩, ?_, fun hf => ?_⟩
      · intro j hj
        obtain ⟨v, hv, hvn⟩ := h.queued j (.tail _ hj)
        have hne : i ≠ j := fun he => hi (he ▸ hj)
        exact ⟨v, (List.getElem?_set_ne hne).trans hv, hvn⟩
      · intro k
        have ha := h.account k
        have hk := hset (Party.has k)
        have h₀ : (Party.waiting w).has k = 0 := by simp [Party.has, hn]
        have h₁ : (Party.waiting (cancelTimer { w with granted := some c.grants })).has k =
            if k = c.grants then 1 else 0 := by simp [Party.has, cancelTimer, eq_comm]
        rw [h₀, h₁] at hk
        change c.released.count k + total (Party.has k) (c.parties.set i _) =
          if k < c.grants + 1 then 1 else 0
        split_ifs at ha hk ⊢ <;> omega
      · intro g hg
        rcases List.mem_cons.mp hg with rfl | hg
        · exact hskip
        · exact h.proper g hg
      · have hh := hset Party.holds
        have h₀ : (Party.waiting w).holds = 0 := by simp [Party.holds, hn]
        have h₁ : (Party.waiting (cancelTimer { w with granted := some c.grants })).holds = 1 := by
          simp [Party.holds, cancelTimer]
        change total Party.holds (c.parties.set i _) = c.gateBusy.toNat
        rw [hb, Bool.toNat_true]
        omega
      · change c.gateBusy = false at hf
        rw [hb] at hf
        cases hf

/-- A party that has the gate by `grant` gives it back as it leaves its place. -/
theorem Inv.release (h : Inv c) (hp : c.parties[i]? = some p) (hold : p.holds = 1)
    (hgrant : ∀ k, p.has k = if k = grant then 1 else 0) (p' : Party) (hp' : p'.holds = 0)
    (hp'k : ∀ k, p'.has k = 0) (queue : List Nat) (hq : queue.Sublist c.gateWaiters)
    (hi : i ∉ queue) :
    Inv (releaseGate { c.setParty i p' with gateWaiters := queue } grant) := by
  have hset := fun f => total_set (f := f) hp p'
  have hle := le_total (f := Party.holds) hp
  have hbusy : c.gateBusy = true := by
    rw [h.busy, hold] at hle
    cases hb : c.gateBusy with
    | true => rfl
    | false => simp [hb] at hle
  refine inv_releaseLoop queue _ ⟨?_, h.core.nodup.sublist hq, ?_, h.core.proper⟩ ?_ hbusy
  · intro j hj
    obtain ⟨v, hv, hn⟩ := h.core.queued j (hq.subset hj)
    have hne : i ≠ j := fun he => hi (he ▸ hj)
    exact ⟨v, (List.getElem?_set_ne hne).trans hv, hn⟩
  · intro k
    have ha := h.core.account k
    have hk := hset (Party.has k)
    rw [hgrant k, hp'k k] at hk
    change (grant :: c.released).count k + total (Party.has k) (c.parties.set i p') =
      if k < c.grants then 1 else 0
    rw [List.count_cons]
    by_cases he : k = grant
    · subst he
      simp only [if_true, beq_self_eq_true] at hk ⊢
      omega
    · have hb : (grant == k) = false := by simpa using Ne.symm he
      rw [if_neg he] at hk
      rw [hb]
      simp only [Bool.false_eq_true, if_false]
      omega
  · have hh := hset Party.holds
    have := h.busy
    rw [hbusy, Bool.toNat_true] at this
    change total Party.holds (c.parties.set i p') = 0
    omega

theorem Inv.leave (h : Inv c) (hp : c.parties[i]? = some p) (hold : p.holds = 0)
    (hhas : ∀ k, p.has k = 0) (p' : Party) (hp' : p'.holds = 0) (hp'k : ∀ k, p'.has k = 0)
    (queue : List Nat) (hq : queue.Sublist c.gateWaiters) (hi : i ∉ queue) :
    Inv { c.setParty i p' with gateWaiters := queue } := by
  have hset := fun f => total_set (f := f) hp p'
  refine ⟨⟨?_, h.core.nodup.sublist hq, fun k => ?_, h.core.proper⟩, ?_, fun hb => ?_⟩
  · intro j hj
    obtain ⟨v, hv, hn⟩ := h.core.queued j (hq.subset hj)
    have hne : i ≠ j := fun he => hi (he ▸ hj)
    exact ⟨v, (List.getElem?_set_ne hne).trans hv, hn⟩
  · have hk := hset (Party.has k)
    rw [hhas k, hp'k k] at hk
    change c.released.count k + total (Party.has k) (c.parties.set i p') =
      if k < c.grants then 1 else 0
    rw [← h.core.account k]
    omega
  · have hh := hset Party.holds
    have := h.busy
    change total Party.holds (c.parties.set i p') = c.gateBusy.toNat
    omega
  · have hnil := h.idle hb
    rw [hnil] at hq
    exact List.sublist_nil.mp hq

theorem Inv.abandonGate (h : Inv c) (hp : c.parties[i]? = some (.waiting w)) (p : Party)
    (hp' : p.holds = 0) (hp'k : ∀ k, p.has k = 0) : Inv (c.abandonGate i w p) := by
  have hsub := List.erase_sublist (l := c.gateWaiters) (a := i)
  have hni : i ∉ c.gateWaiters.erase i := h.core.nodup.not_mem_erase
  unfold Impl.abandonGate
  dsimp only
  cases hg : w.granted with
  | none =>
    exact h.leave hp (by simp [Party.holds, hg]) (by simp [Party.has, hg]) p hp' hp'k _ hsub hni
  | some grant =>
    refine h.release hp (by simp [Party.holds, hg]) (fun k => ?_) p hp' hp'k _ hsub hni
    simp [Party.has, hg, eq_comm]

theorem Inv.not_queued (h : Inv c) (hp : c.parties[i]? = some p) (hold : p.holds = 1) :
    i ∉ c.gateWaiters := by
  intro hi
  obtain ⟨w, hw, hn⟩ := h.core.queued i hi
  cases hp.symm.trans hw
  simp [Party.holds, hn] at hold

theorem Inv.resume (h : Inv c) (hp : c.parties[i]? = some (.waiting w)) (error : Bool) (now : Nat)
    (wasCancelled : Bool) : Inv (c.resume i w error now wasCancelled) := by
  unfold Impl.resume
  cases hg : w.granted with
  | none => exact h.abandonGate hp _ rfl fun _ => rfl
  | some grant =>
    have hold : (Party.waiting w).holds = 1 := by simp [Party.holds, hg]
    have hhas : ∀ k, (Party.waiting w).has k = if k = grant then 1 else 0 := fun k => by
      simp [Party.has, hg, eq_comm]
    have hni := h.not_queued hp hold
    dsimp only
    split
    · exact h.release hp hold hhas _ rfl (fun _ => rfl) _ (List.Sublist.refl _) hni
    · have hset := fun f => total_set (f := f) hp (.leased grant)
      refine ⟨⟨?_, h.core.nodup, fun k => ?_, h.core.proper⟩, ?_, h.idle⟩
      · intro j hj
        obtain ⟨v, hv, hn⟩ := h.core.queued j hj
        have hne : i ≠ j := fun he => hni (he ▸ hj)
        exact ⟨v, (List.getElem?_set_ne hne).trans hv, hn⟩
      · have hk := hset (Party.has k)
        rw [hhas k] at hk
        have hl : (Party.leased grant).has k = if k = grant then 1 else 0 := by
          simp [Party.has, eq_comm]
        change c.released.count k + total (Party.has k) (c.parties.set i _) =
          if k < c.grants then 1 else 0
        rw [← h.core.account k]
        omega
      · have hh := hset Party.holds
        have := h.busy
        have hl : (Party.leased grant).holds = 1 := rfl
        change total Party.holds (c.parties.set i _) = c.gateBusy.toNat
        omega

theorem Inv.append (h : Inv c) (p : Party) (hp : p.holds = 0) (hpk : ∀ k, p.has k = 0)
    (queue : List Nat) (hq : queue = c.gateWaiters ∨
      (queue = c.gateWaiters ++ [c.parties.length] ∧ c.gateBusy = true ∧
        ∃ w, p = .waiting w ∧ w.granted = none)) :
    Inv { c with parties := c.parties ++ [p], gateWaiters := queue } := by
  have hlt : ∀ j ∈ c.gateWaiters, j < c.parties.length := fun j hj => by
    obtain ⟨v, hv, _⟩ := h.core.queued j hj
    exact (List.getElem?_eq_some_iff.mp hv).1
  have hold : ∀ j ∈ c.gateWaiters, ∃ w, (c.parties ++ [p])[j]? = some (.waiting w) ∧
      w.granted = none := fun j hj => by
    obtain ⟨v, hv, hn⟩ := h.core.queued j hj
    exact ⟨v, by rw [List.getElem?_append_left (hlt j hj), hv], hn⟩
  refine ⟨⟨?_, ?_, fun k => ?_, h.core.proper⟩, ?_, fun hb => ?_⟩
  · intro j hj
    rcases hq with rfl | ⟨rfl, _, w, rfl, hn⟩
    · exact hold j hj
    · rcases List.mem_append.mp hj with hj | hj
      · exact hold j hj
      · rw [List.mem_singleton.mp hj]
        exact ⟨w, List.getElem?_concat_length, hn⟩
  · rcases hq with rfl | ⟨rfl, _⟩
    · exact h.core.nodup
    · rw [← List.concat_eq_append]
      exact List.Nodup.concat (fun hi => Nat.lt_irrefl _ (hlt _ hi)) h.core.nodup
  · dsimp only
    rw [total_append, total_cons, hpk, total_nil]
    exact h.core.account k
  · dsimp only
    rw [total_append, total_cons, hp, total_nil]
    exact h.busy
  · rcases hq with rfl | ⟨_, ht, _⟩
    · exact h.idle hb
    · change c.gateBusy = false at hb
      rw [ht] at hb
      cases hb

theorem Inv.acquireGate (h : Inv c) (token deadline now : Nat) (wasCancelled : Bool) :
    Inv (c.acquireGate token deadline now wasCancelled) := by
  unfold Impl.acquireGate
  split
  · exact h.append _ rfl (fun _ => rfl) c.gateWaiters (.inl rfl)
  split
  next hb =>
    have hb : c.gateBusy = false := by simpa using hb
    have hnil := h.idle hb
    have hz := h.busy
    rw [hb, Bool.toNat_false] at hz
    refine ⟨⟨fun j hj => ?_, h.core.nodup, fun k => ?_, h.core.proper⟩, ?_, fun hf => by cases hf⟩
    · change j ∈ c.gateWaiters at hj
      rw [hnil] at hj
      cases hj
    · have ha := h.core.account k
      dsimp only
      rw [total_append, total_cons, total_nil, Party.has]
      split_ifs at ha ⊢ <;> omega
    · dsimp only
      rw [total_append, total_cons, total_nil, hz]
      rfl
  next hb =>
    have hb : c.gateBusy = true := by simpa using hb
    exact h.append _ rfl (fun _ => rfl) _ (.inr ⟨rfl, hb, _, rfl, rfl⟩)

theorem Inv.stopOnLoop (h : Inv c) (cutoff : Nat) : Inv (c.stopOnLoop cutoff) := by
  refine List.foldlRecOn _ _ h fun d hd i _ => ?_
  unfold Impl.stopWaiter
  split
  next w hw =>
    split
    · exact hd.setWaiting hw rfl
    · exact hd
  · exact hd

theorem Inv.step (h : Inv c) (e : GateEvent) (hs : c.step e = some c') : Inv c' := by
  cases e with
  | acquireGate token deadline now wasCancelled =>
    cases hs
    exact h.acquireGate token deadline now wasCancelled
  | expire i now =>
    simp only [Impl.step] at hs
    split at hs
    next w hw =>
      split at hs
      · cases hs
        exact h.setWaiting hw rfl
      · cases hs
    · cases hs
  | cancel i =>
    simp only [Impl.step] at hs
    split at hs
    next w hw =>
      cases hs
      exact h.setWaiting hw rfl
    · cases hs
  | resume i now wasCancelled =>
    simp only [Impl.step] at hs
    split at hs
    next w hw =>
      obtain ⟨error, _, rfl⟩ := Option.map_eq_some_iff.mp hs
      exact h.resume hw error now wasCancelled
    · cases hs
  | destroy i =>
    simp only [Impl.step] at hs
    split at hs
    next w hw =>
      cases hs
      exact h.abandonGate hw .over rfl fun _ => rfl
    next grant hw =>
      cases hs
      refine h.release hw rfl (fun k => ?_) .over rfl (fun _ => rfl) _ (List.Sublist.refl _)
        (h.not_queued hw rfl)
      simp [Party.has, eq_comm]
    · cases hs
  | move i =>
    simp only [Impl.step] at hs
    split at hs
    next grant hw =>
      cases hs
      have hni := h.not_queued hw rfl
      have hset := fun f => total_set (f := f) hw .over
      refine ⟨⟨fun j hj => ?_, h.core.nodup, fun k => ?_, h.core.proper⟩, ?_, h.idle⟩
      · obtain ⟨v, hv, hn⟩ := h.core.queued j hj
        have hne : i ≠ j := fun he => hni (he ▸ hj)
        have hlt := (List.getElem?_eq_some_iff.mp hv).1
        refine ⟨v, ?_, hn⟩
        dsimp only
        rw [List.getElem?_append_left (by rwa [List.length_set]), List.getElem?_set_ne hne, hv]
      · have ha := h.core.account k
        have hk := hset (Party.has k)
        change c.released.count k + total (Party.has k) (c.parties.set i .over ++ [.leased grant]) =
          if k < c.grants then 1 else 0
        rw [total_append, total_cons, total_nil, ← ha]
        have h₀ : Party.over.has k = 0 := rfl
        omega
      · have hh := hset Party.holds
        have := h.busy
        change total Party.holds (c.parties.set i .over ++ [.leased grant]) = c.gateBusy.toNat
        rw [total_append, total_cons, total_nil]
        have h₀ : Party.over.holds = 0 := rfl
        omega
    · cases hs
  | scheduleStop terminal =>
    cases hs
    exact ⟨{ h.core with }, h.busy, h.idle⟩
  | stopOnLoop =>
    simp only [Impl.step] at hs
    split at hs
    next cutoff stops _ =>
      cases hs
      have hd : Inv { c with stops } := ⟨{ h.core with }, h.busy, h.idle⟩
      exact hd.stopOnLoop cutoff
    · cases hs

theorem inv_run (events : List GateEvent) :
    ∀ c c' : Impl, Inv c → c.run events = some c' → Inv c' := by
  intro c c' h hr
  exact Runs.accepted (P := fun c _ => Inv c) (fun _ e _ _ h hs => h.step e hs) h hr

/-- What the gate guarantees in every state. -/
structure GateKept (c : Impl) : Prop where
  /-- At most one party has the gate, and `gateBusy_` tells whether one has. -/
  holder : total Party.holds c.parties = c.gateBusy.toNat
  /-- Nobody waits for a gate that is free. -/
  free : c.gateBusy = false → c.gateWaiters = []
  /-- No waiter was granted the gate that was abandoned, or of another generation. -/
  granted : ∀ g ∈ c.history, g.abandoned = false ∧ g.wasCurrent = true
  /-- Every grant is with one party, or was given back once. -/
  grants : ∀ k < c.grants, c.released.count k + total (Party.has k) c.parties = 1
  released : ∀ k ∈ c.released, k < c.grants

theorem gate_kept (events : List GateEvent) (c : Impl) (h : Impl.run {} events = some c) :
    GateKept c := by
  have hstart : Inv {} := by
    refine ⟨⟨?_, .nil, ?_, ?_⟩, rfl, fun _ => rfl⟩ <;> simp
  have hi := inv_run events {} c hstart h
  refine ⟨hi.busy, hi.idle, hi.core.proper, fun k hk => ?_, fun k hk => ?_⟩
  · rw [hi.core.account k, if_pos hk]
  · by_contra hn
    have ha := hi.core.account k
    rw [if_neg hn] at ha
    have := List.count_pos_iff.mpr hk
    omega

/-- A waiter is granted the gate and cancelled before it resumes; the next one gets the gate. -/
def gateEvents : List GateEvent :=
  [.acquireGate 1 90 0 false, .acquireGate 1 90 1 false, .acquireGate 1 90 2 false, .destroy 0,
    .cancel 1, .resume 1 3 true, .resume 2 4 false]

theorem gate_kept_cancelled :
    ∃ c, Impl.run {} gateEvents = some c ∧ c.grants = 3 ∧ c.released = [1, 0] ∧ GateKept c :=
  ⟨_, rfl, rfl, rfl, gate_kept gateEvents _ rfl⟩

end Hical.Client.Gate
