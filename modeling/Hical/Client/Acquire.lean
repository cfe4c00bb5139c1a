import Hical.Client.Drain

namespace Hical.Client.Managed

variable {s s' : Sched} {i : Nat} {r r' : Request} {w w' : ManagedWaiter} {a : Reservation}

theorem Moves.same (hm : Moves s s') :
    s'.stopping = s.stopping ∧ s'.identity = s.identity ∧ s'.options = s.options := by
  induction hm with
  | refl => exact ⟨rfl, rfl, rfl⟩
  | tail _ hm ih =>
    obtain ⟨h₁, h₂, h₃⟩ := hm.same
    exact ⟨h₁.trans ih.1, h₂.trans ih.2.1, h₃.trans ih.2.2⟩

theorem scheduleManaged_moves (s : Sched) : Moves s s.scheduleManaged := by
  obtain ⟨b, hb⟩ := scheduleManaged_eq s
  rw [hb]
  exact .single (.schedule b)

theorem Move.ends (hr : s.requests[i]? = some r) (hp : r.phase = .between) (r' : Request)
    (hd : r'.phase = .done) : Move s (s.setRequest i r') := by
  refine .settle hr ?_ ?_ ?_
  · rw [Request.reservation, Request.reservation, hp, hd]
  · rw [Request.lease, Request.lease, hp, hd]
  · rw [Request.ticket, Request.ticket, hp, hd]

theorem admit_moves (hs : s.stopping = false) (hr : s.requests[i]? = some r)
    (hp : r.phase = .between) (now : Nat) : Moves s (s.giveSlot i r now) := by
  have ht : r.ticket = none := by rw [Request.ticket, hp]
  have hi : r.reservation = none := by rw [Request.reservation, hp]
  have hwaits : ∀ s₁ : Sched, Moves s s₁ → s₁.requests = s.requests →
      ∀ (r' : Request) (w : ManagedWaiter), w.assigned = none →
      Moves s (if s₁.waiters.length ≥ s₁.maxQueuedRequestsPerOrigin then
        s₁.setRequest i { r with phase := .done } else s₁.enqueue i r' w) := by
    intro s₁ hm hreq r' w ha
    have hr₁ : s₁.requests[i]? = some r := hreq ▸ hr
    split
    · exact hm.tail (.ends hr₁ hp _ rfl)
    · next hlt => exact hm.tail (.enqueue hr₁ ht hi (Nat.lt_of_not_le hlt) ha)
  obtain ⟨hsel, hreq, hwait, hfound⟩ := selectManaged_spec s now hs
  rw [Sched.giveSlot]
  by_cases hw : s.waiters.isEmpty = true
  · rw [if_pos hw]
    rcases hsm : s.selectManaged now with ⟨s₁, _ | c⟩
    · rw [hsm] at hsel hreq
      exact hwaits s₁ hsel hreq _ _ rfl
    · rw [hsm] at hsel hreq hwait hfound
      obtain ⟨hc, hlt⟩ := hfound c rfl
      have hr₁ : s₁.requests[i]? = some r := hreq ▸ hr
      have hw₁ : s₁.waiters = [] := hwait.trans (List.isEmpty_iff.1 hw)
      have hres : ({ r with phase := .leased ⟨c, s₁.reserved⟩ } : Request).reservation =
        some ⟨c, s₁.reserved⟩ := rfl
      have hm := Move.direct hr₁ ht hi hw₁ hc hlt hres rfl rfl
      dsimp only
      rw [reserve_number]
      obtain ⟨entries, he, -⟩ := reserve_eq s₁ hlt
      rw [he] at hm ⊢
      exact hsel.tail hm
  · rw [if_neg hw]
    exact hwaits s .refl rfl _ _ rfl

theorem acquireManaged_moves (h : Lined s.toManagedOrigin) (hr : s.requests[i]? = some r)
    (hp : r.phase = .between) (clock : Nat → Nat) : Moves s (s.acquireManaged i r clock) := by
  have hn : i ∉ s.waiters := by
    rw [h.mem i, ticketAt_of hr, Request.ticket, hp]
    exact fun he => he rfl
  rw [Sched.acquireManaged]
  split
  · exact .single (.ends hr hp _ rfl)
  next hs =>
  split
  · exact .single (.ends hr hp _ rfl)
  have hdrain := drainManaged_moves h clock
  have hr₁ := (drainManaged_frame clock s hn).trans hr
  have hs₁ : (s.drainManaged clock).stopping = false :=
    hdrain.same.1.trans (Bool.eq_false_iff.2 hs)
  exact hdrain.trans (admit_moves hs₁ hr₁ hp _)

theorem attempt_moves (h : Lined s.toManagedOrigin) (hr : s.requests[i]? = some r)
    (hp : r.phase = .between) (cancelled : Bool) (now : Nat) (clock : Nat → Nat) :
    Moves s (s.attempt i r cancelled now clock) := by
  rw [Sched.attempt]
  split
  · exact .single (.ends hr hp _ rfl)
  · split
    · exact .single (.ends hr hp _ rfl)
    · exact acquireManaged_moves h hr hp clock

theorem join_moves (h : Lined s.toManagedOrigin) (hp : r.phase = .between) (cancelled : Bool)
    (now : Nat) (clock : Nat → Nat) : Moves s (s.join r cancelled now clock) := by
  have hj : Move s { s with requests := s.requests ++ [r] } := .join hp
  exact (Relation.ReflTransGen.single hj).trans
    (attempt_moves (hj.lined h) List.getElem?_concat_length hp cancelled now clock)

theorem Lined.out_of_line (h : Lined s.toManagedOrigin) (hr : s.requests[i]? = some r)
    (ha : r.reservation = some a) : r.ticket = none := by
  by_contra hn
  rw [h.idle i r hr hn] at ha
  cases ha

theorem removeWaiter_self (hr : s.requests[i]? = some r) (r' : Request) (w : ManagedWaiter) :
    ∃ r₁, (s.removeWaiter i r' w).requests[i]? = some r₁ ∧ r₁.reservation = w.assigned ∧
      r₁.lease = none ∧ r₁.ticket = none := by
  have hlt := (List.getElem?_eq_some_iff.1 hr).1
  rw [Sched.removeWaiter]
  split
  · exact ⟨_, List.getElem?_set_self hlt, rfl, rfl, rfl⟩
  · next hq => exact ⟨_, List.getElem?_set_self hlt, rfl, rfl, if_neg hq⟩

theorem Lined.unqueued (h : Lined s.toManagedOrigin) (hr : s.requests[i]? = some r)
    (hp : r.phase = .waiting w) (ha : w.assigned = some a) : ¬ w.queued = true := by
  intro hq
  have hres : r.reservation = some a := by
    rw [Request.reservation, hp]
    exact ha
  have ht := h.out_of_line hr hres
  rw [Request.ticket, hp] at ht
  dsimp only at ht
  rw [if_pos hq] at ht
  cases ht

theorem refuse_moves (hr : s.requests[i]? = some r) (hp : r.phase = .waiting w)
    (ha : w'.assigned = w.assigned) (hq : w'.queued = w.queued) (ht : w'.ticket = w.ticket)
    (r' : Request) (now : Nat) : Moves s (s.refuse i r' w' now) := by
  have hrm : Moves s (s.removeWaiter i r' w') := removeWaiter_moves hr hp ha hq ht
  obtain ⟨r₁, hr₁, ha₁, hl₁, ht₁⟩ := removeWaiter_self hr r' w'
  rw [Sched.refuse]
  refine .trans ?_ (scheduleManaged_moves _)
  split
  · next a hs => exact hrm.tail (.free hr₁ ht₁ (ha₁.trans hs) hl₁ rfl rfl rfl)
  · next hs => exact hrm.tail (.settle hr₁ (ha₁.trans hs).symm hl₁.symm ht₁.symm)

theorem claim_moves (h : Lined s.toManagedOrigin) (hr : s.requests[i]? = some r)
    (hp : r.phase = .waiting w) (ha : w.assigned = some a) (r' : Request) :
    Moves s (s.claim i r' w a) := by
  have hq := h.unqueued hr hp ha
  have hres : r.reservation = some a := by
    rw [Request.reservation, hp]
    exact ha
  have hl : r.lease = none := by rw [Request.lease, hp]
  have hm : Move s { s.setRequest i { r' with phase := .leased a } with
      leases := a.number :: s.leases } :=
    .claim hr (h.out_of_line hr hres) hres hl rfl rfl rfl
  rw [Sched.claim, Sched.removeWaiter, if_neg hq]
  dsimp only [Sched.setRequest]
  rw [List.set_set]
  exact (Relation.ReflTransGen.single hm).trans (scheduleManaged_moves _)

theorem requeueManagedGrant_moves (h : Lined s.toManagedOrigin) (hr : s.requests[i]? = some r)
    (hp : r.phase = .waiting w) (ha : w.assigned = some a) (r' : Request) (now : Nat) :
    Moves s (s.requeueManagedGrant i r' w a now).1 ∧
      ((s.requeueManagedGrant i r' w a now).2 ≠ none →
        (s.requeueManagedGrant i r' w a now).1.requests[i]? = some { r' with
          phase := .waiting { w with assigned := none, assignedConnected := false } }) := by
  have hq := h.unqueued hr hp ha
  have hres : r.reservation = some a := by
    rw [Request.reservation, hp]
    exact ha
  have hl : r.lease = none := by rw [Request.lease, hp]
  have hlt := (List.getElem?_eq_some_iff.1 hr).1
  rw [Sched.requeueManagedGrant]
  dsimp only
  generalize hd : ({ r' with
    phase := .waiting { w with assigned := none, assignedConnected := false } } : Request) = r₁
  have hi₁ : r₁.reservation = none := by
    rw [← hd]
    rfl
  have hl₁ : r₁.lease = none := by
    rw [← hd]
    rfl
  have ht₁ : r₁.ticket = none := by
    rw [← hd]
    exact if_neg hq
  obtain ⟨entries, b, u, he, -⟩ := releaseManaged_eq
    ({ s with freed := a.number :: s.freed }.setRequest i r₁) a.connection now
  have hfree : Move s (({ s with freed := a.number :: s.freed }.setRequest i r₁).releaseManaged
      a.connection now) := .free hr (h.out_of_line hr hres) hres hl hi₁ hl₁ ht₁
  have hr₁ : (s.requests.set i r₁)[i]? = some r₁ := List.getElem?_set_self hlt
  rw [he] at hfree ⊢
  split
  · exact ⟨.single hfree, fun _ => hr₁⟩
  · next hm =>
    refine ⟨(Relation.ReflTransGen.single hfree).tail
      (.enqueue hr₁ ht₁ hi₁ (Nat.lt_of_not_le hm) rfl), fun hn => absurd rfl hn⟩

theorem resume_moves (h : Lined s.toManagedOrigin) (hr : s.requests[i]? = some r)
    (hp : r.phase = .waiting w) (aborted cancelled : Bool) (now later : Nat) :
    Moves s (s.resume i r w aborted cancelled now later) := by
  obtain ⟨ha, hq, ht, -⟩ := refreshed_same s w now
  have htouch : Move s (s.setRequest i { r with phase := .waiting (s.refreshed w now) }) :=
    .touch hr hp rfl ha hq ht
  have h₁ := htouch.lined h
  have hr₁ : (s.setRequest i { r with phase := .waiting (s.refreshed w now) }).requests[i]? =
      some { r with phase := .waiting (s.refreshed w now) } :=
    List.getElem?_set_self (List.getElem?_eq_some_iff.1 hr).1
  rw [Sched.resume]
  generalize s.refreshed w now = w₁ at *
  generalize s.setRequest i { r with phase := .waiting w₁ } = s₁ at *
  refine (Relation.ReflTransGen.single htouch).trans ?_
  split
  · exact refuse_moves hr₁ rfl rfl rfl rfl r now
  split
  · next a has =>
    split
    · obtain ⟨hm, hstay⟩ := requeueManagedGrant_moves h₁ hr₁ rfl has r now
      split
      · next s₂ he =>
        rw [he] at hm
        exact hm
      · next s₂ error he =>
        rw [he] at hm hstay
        refine hm.trans (refuse_moves (hstay (Option.some_ne_none _)) rfl ?_ ?_ ?_ r now)
        · rfl
        · rfl
        · rfl
    · split
      · exact refuse_moves hr₁ rfl rfl rfl rfl r later
      · exact claim_moves h₁ hr₁ rfl has r
  · split
    · exact .refl
    · exact refuse_moves hr₁ rfl rfl rfl rfl r now

theorem dropLease_moves (hr : s.requests[i]? = some r) (hp : r.phase = .leased a) (r' : Request)
    (hd : phase = .between ∨ phase = .done) (now : Nat) :
    Moves s (s.dropLease i r' a phase now) := by
  have ht : r.ticket = none := by rw [Request.ticket, hp]
  have hres : r.reservation = some a := by rw [Request.reservation, hp]
  have hl : r.lease = some a := by rw [Request.lease, hp]
  rw [Sched.dropLease]
  rcases hd with rfl | rfl
  · exact .single (.giveBack hr ht hres hl rfl rfl rfl)
  · exact .single (.giveBack hr ht hres hl rfl rfl rfl)

theorem finish_moves (hr : s.requests[i]? = some r) (hp : r.phase = .leased a)
    (outcome : Except SystemError HttpClientResult) (reused : Bool) (now : Nat) :
    Moves s (s.finish i r a outcome reused now) := by
  have hend := dropLease_moves hr hp r (.inr rfl) now
  cases outcome with
  | error e => exact hend
  | ok result =>
    rw [Sched.finish]
    split
    · exact hend
    · split
      · exact hend
      · exact dropLease_moves hr hp _ (.inl rfl) now

theorem unwind_moves (hr : s.requests[i]? = some r) (now : Nat) : Moves s (s.unwind i r now) := by
  rw [Sched.unwind]
  split
  · next w hp => exact refuse_moves hr hp rfl rfl rfl r now
  · next a hp => exact dropLease_moves hr hp r (.inr rfl) now
  · next hp => exact .single (.ends hr hp _ rfl)
  · exact .refl

theorem Move.setEntry {e e' : ManagedConnection} (he : s.entries[c]? = some e)
    (ha : e'.active = e.active) (hc : e.closed = true → e'.closed = true) :
    Move s (s.setEntry c e') := by
  have hlt := (List.getElem?_eq_some_iff.1 he).1
  refine .clients _ List.length_set ?_ ?_
  · intro d
    by_cases hd : d = c
    · rw [hd, activeOf, activeOf, List.getElem?_set_self hlt, he]
      exact ha
    · rw [activeOf, activeOf, List.getElem?_set_ne (Ne.symm hd)]
  · intro d e₁ he₁ hclosed
    by_cases hd : d = c
    · subst hd
      rw [he] at he₁
      cases he₁
      exact ⟨e', List.getElem?_set_self hlt, hc hclosed⟩
    · exact ⟨e₁, (List.getElem?_set_ne (Ne.symm hd)).trans he₁, hclosed⟩

theorem capacityChanged_moves (s : Sched) (c now : Nat) : Moves s (s.capacityChanged c now) := by
  rw [Sched.capacityChanged]
  split
  · next e he =>
    refine .trans (.single (.setEntry he ?_ ?_)) (scheduleManaged_moves _)
    · split
      · rfl
      · split
        · rfl
        · rfl
    · intro hc
      split
      · exact hc
      · split
        · exact hc
        · exact hc
  · exact .refl

def closing (entries : List ManagedConnection) (p : Nat → Bool) : List ManagedConnection :=
  entries.mapIdx fun c e => if p c then Sched.closeClient e else e

theorem activeOf_closing (entries : List ManagedConnection) (p : Nat → Bool) (c : Nat) :
    activeOf (closing entries p) c = activeOf entries c := by
  rw [activeOf, closing, List.getElem?_mapIdx, activeOf]
  cases entries[c]? with
  | none => rfl
  | some e =>
    change (if p c then Sched.closeClient e else e).active = e.active
    split
    · rfl
    · rfl

theorem Move.closing (s : Sched) (p : Nat → Bool) :
    Move s { s with entries := closing s.entries p } := by
  refine .clients _ List.length_mapIdx (activeOf_closing s.entries p) ?_
  intro c e he hc
  refine ⟨if p c then Sched.closeClient e else e, ?_, ?_⟩
  · rw [Managed.closing, List.getElem?_mapIdx, he]
    rfl
  · split
    · rfl
    · exact hc

theorem sweepConnections_moves (s : Sched) (isAlive : Nat → Bool) (idleTimeout now : Nat) :
    Moves s (s.sweepConnections isAlive idleTimeout now) := by
  refine .tail (.single (.closing s _)) (.erase _ List.filter_sublist ?_)
  intro c hc hn
  rw [activeOf_closing, activeOf]
  by_contra ha
  refine hn (List.mem_filter.2 ⟨hc, ?_⟩)
  dsimp only
  cases he : s.entries[c]? with
  | none => rfl
  | some e =>
    rw [he] at ha
    have ha : e.active ≠ 0 := ha
    dsimp only
    rw [decide_eq_false ha]
    rfl

theorem stop_moves (h : Lined s.toManagedOrigin) (clock : Nat → Nat) :
    Moves s (s.stop clock) := by
  have hm := Move.closing s fun c => s.connections.contains c
  exact (Relation.ReflTransGen.single hm).trans (drainManaged_moves (hm.lined h) clock)

end Hical.Client.Managed
