import Mathlib.Logic.Relation
import Mathlib.Data.List.Nodup
import Hical.Lib.Ledger
import Hical.Client.ManagedPool

namespace Hical.Client.Managed

namespace Request

def reservation (r : Request) : Option Reservation :=
  match r.phase with
  | .waiting w => w.assigned
  | .leased a => some a
  | _ => none

def lease (r : Request) : Option Reservation :=
  match r.phase with
  | .leased a => some a
  | _ => none

def ticket (r : Request) : Option Nat :=
  match r.phase with
  | .waiting w => if w.queued then some w.ticket else none
  | _ => none

end Request

def ticketAt (requests : List Request) (i : Nat) : Option Nat := requests[i]?.bind Request.ticket

def activeOf (entries : List ManagedConnection) (c : Nat) : Nat :=
  (entries[c]?.map (·.active)).getD 0

/-- What one step of the scheduling can do to an origin. -/
inductive Move : Sched → Sched → Prop where
  /-- A request goes on, and the pool does not see it. -/
  | settle {s : Sched} {r r' : Request}
      (h : s.requests[i]? = some r) (hr : r'.reservation = r.reservation)
      (hl : r'.lease = r.lease) (ht : r'.ticket = r.ticket) : Move s (s.setRequest i r')
  /-- A waiter leaves the list. -/
  | leave {s : Sched} {r r' : Request}
      (h : s.requests[i]? = some r) (ht : r.ticket = some t)
      (hr : r'.reservation = r.reservation) (hl : r'.lease = r.lease) (hn : r'.ticket = none) :
      Move s { s.setRequest i r' with
        waiters := s.waiters.erase i, queuedRequests := s.queuedRequests - 1 }
  /-- The first waiter gets a connection. -/
  | grant {s : Sched} {r r' : Request}
      (h : s.requests[i]? = some r) (ht : r.ticket = some t) (hi : r.reservation = none)
      (hw : s.waiters = i :: rest) (hc : c ∈ s.connections) (hlt : c < s.entries.length)
      (hr : r'.reservation = some ⟨c, s.reserved⟩) (hl : r'.lease = none) (hn : r'.ticket = none) :
      Move s { (s.reserve c).1.setRequest i r' with
        served := ⟨some t, (s.waiters.erase i).filterMap s.ticketOf⟩ :: s.served
        waiters := s.waiters.erase i
        queuedRequests := s.queuedRequests - 1 }
  /-- A caller gets a connection where nobody waits. -/
  | direct {s : Sched} {r r' : Request}
      (h : s.requests[i]? = some r) (ht : r.ticket = none) (hi : r.reservation = none)
      (hw : s.waiters = []) (hc : c ∈ s.connections) (hlt : c < s.entries.length)
      (hr : r'.reservation = some ⟨c, s.reserved⟩) (hl : r'.lease = some ⟨c, s.reserved⟩)
      (hn : r'.ticket = none) :
      Move s { (s.reserve c).1.setRequest i r' with
        served := ⟨none, s.waiters.filterMap s.ticketOf⟩ :: s.served
        leases := s.reserved :: s.leases }
  | enqueue {s : Sched} {r r' : Request} {w : ManagedWaiter}
      (h : s.requests[i]? = some r) (ht : r.ticket = none) (hi : r.reservation = none)
      (hm : s.waiters.length < s.maxQueuedRequestsPerOrigin) (ha : w.assigned = none) :
      Move s (s.enqueue i r' w)
  /-- A waiter gives back what it was assigned. -/
  | free {s : Sched} {r r' : Request} {a : Reservation}
      (h : s.requests[i]? = some r) (ht : r.ticket = none) (hr : r.reservation = some a)
      (hl : r.lease = none) (hi : r'.reservation = none) (hl' : r'.lease = none)
      (hn : r'.ticket = none) :
      Move s (({ s with freed := a.number :: s.freed }.setRequest i r').releaseManaged
        a.connection now)
  /-- A lease is given back. -/
  | giveBack {s : Sched} {r r' : Request} {a : Reservation}
      (h : s.requests[i]? = some r) (ht : r.ticket = none) (hr : r.reservation = some a)
      (hl : r.lease = some a) (hi : r'.reservation = none) (hl' : r'.lease = none)
      (hn : r'.ticket = none) :
      Move s (({ s with returned := a.number :: s.returned }.setRequest i r').releaseManaged
        a.connection now)
  /-- A waiter turns what it was assigned into a lease. -/
  | claim {s : Sched} {r r' : Request} {a : Reservation}
      (h : s.requests[i]? = some r) (ht : r.ticket = none) (hr : r.reservation = some a)
      (hl : r.lease = none) (hr' : r'.reservation = some a) (hl' : r'.lease = some a)
      (hn : r'.ticket = none) :
      Move s { s.setRequest i r' with leases := a.number :: s.leases }
  | schedule {s : Sched} (b : Bool) : Move s { s with scheduled := b }
  /-- The clients change. -/
  | clients {s : Sched} (entries : List ManagedConnection) (hl : entries.length = s.entries.length)
      (ha : ∀ c, activeOf entries c = activeOf s.entries c)
      (hc : ∀ (c : Nat) e, s.entries[c]? = some e → e.closed = true →
        ∃ e', entries[c]? = some e' ∧ e'.closed = true) :
      Move s { s with entries }
  /-- Connections that nobody uses are erased. -/
  | erase {s : Sched} (connections : List Nat) (hs : connections.Sublist s.connections)
      (ha : ∀ c ∈ s.connections, c ∉ connections → activeOf s.entries c = 0) :
      Move s { s with connections }
  /-- A connection is made. -/
  | make {s : Sched} (now : Nat) (hs : s.stopping = false)
      (hm : s.connections.length < s.maxConnectionsPerOrigin) :
      Move s { s with
        entries := s.entries ++ [{ idleSince := now }]
        connections := s.connections ++ [s.entries.length] }
  | join {s : Sched} {r : Request} (hr : r.phase = .between) :
      Move s { s with requests := s.requests ++ [r] }

abbrev Moves : Sched → Sched → Prop := Relation.ReflTransGen Move

/-- The list of waiters and the tickets of those who are in it. -/
structure Lined (o : ManagedOrigin) : Prop where
  bound : o.waiters.length ≤ o.options.http2.maxQueuedRequestsPerOrigin.toNat
  nodup : o.waiters.Nodup
  mem : ∀ i, i ∈ o.waiters ↔ ticketAt o.requests i ≠ none
  order : o.waiters.Pairwise fun i j => ∀ t t', ticketAt o.requests i = some t →
    ticketAt o.requests j = some t' → t < t'
  fresh : ∀ (i t : Nat), ticketAt o.requests i = some t → t < o.tickets
  idle : ∀ (i : Nat) r, o.requests[i]? = some r → r.ticket ≠ none → r.reservation = none
  served : ∀ v ∈ o.served, match v.ticket with
    | some t => ∀ t' ∈ v.left, t < t'
    | none => v.left = []

variable {s s' : Sched} {requests : List Request} {r r' : Request} {w : ManagedWaiter}

theorem ticketAt_of (h : requests[i]? = some r) : ticketAt requests i = r.ticket := by
  rw [ticketAt, h]
  rfl

theorem ticketAt_set_self (h : requests[i]? = some r) (r' : Request) :
    ticketAt (requests.set i r') i = r'.ticket :=
  ticketAt_of (List.getElem?_set_self (List.getElem?_eq_some_iff.1 h).1)

theorem ticketAt_set_ne (h : i ≠ j) (r' : Request) :
    ticketAt (requests.set i r') j = ticketAt requests j := by
  rw [ticketAt, List.getElem?_set_ne h, ticketAt]

theorem ticketAt_set_same (h : requests[i]? = some r) (ht : r'.ticket = r.ticket) (j : Nat) :
    ticketAt (requests.set i r') j = ticketAt requests j := by
  by_cases he : i = j
  · rw [← he, ticketAt_set_self h, ht, ticketAt_of h]
  · exact ticketAt_set_ne he r'

theorem waiting_of_ticket (h : r.ticket = some t) :
    ∃ w, r.phase = .waiting w ∧ w.queued = true ∧ t = w.ticket := by
  rw [Request.ticket] at h
  cases hp : r.phase with
  | waiting w =>
    rw [hp] at h
    dsimp only at h
    split at h
    · next hq => exact ⟨w, rfl, hq, (Option.some.inj h).symm⟩
    · cases h
  | leased a | between | done => rw [hp] at h; cases h

theorem ticketOf_of (h : ticketAt s.requests i = some t) :
    s.ticketOf i = some t := by
  rw [ticketAt, Option.bind_eq_some_iff] at h
  obtain ⟨r, hr, ht⟩ := h
  rw [Sched.ticketOf, hr]
  obtain ⟨w, hp, _, rfl⟩ := waiting_of_ticket ht
  dsimp only
  rw [hp]

theorem ticketAt_of_ticketOf (h : s.ticketOf i = some t) (hn : ticketAt s.requests i ≠ none) :
    ticketAt s.requests i = some t := by
  obtain ⟨t', ht'⟩ := Option.ne_none_iff_exists'.1 hn
  rw [ticketOf_of ht'] at h
  rw [ht', h]

theorem reserve_number (s : Sched) (c : Nat) : (s.reserve c).2 = ⟨c, s.reserved⟩ := by
  rw [Sched.reserve]
  cases s.entries[c]? with
  | none => rfl
  | some e => rfl

theorem reserve_eq (s : Sched) (h : c < s.entries.length) :
    ∃ entries, (s.reserve c).1 = { s with entries, reserved := s.reserved + 1 } ∧
      entries.length = s.entries.length ∧
      (∀ d, activeOf entries d = activeOf s.entries d + if d = c then 1 else 0) ∧
      ∀ (d : Nat) e, s.entries[d]? = some e → ∃ e', entries[d]? = some e' ∧ e'.closed = e.closed := by
  have he := List.getElem?_eq_getElem h
  refine ⟨s.entries.set c { s.entries[c] with active := s.entries[c].active + 1 }, ?_,
    List.length_set, ?_, ?_⟩
  · rw [Sched.reserve, he]
    rfl
  · intro d
    by_cases hd : d = c
    · rw [hd, activeOf, activeOf, List.getElem?_set_self h, he, if_pos rfl]
      rfl
    · rw [activeOf, activeOf, List.getElem?_set_ne (Ne.symm hd), if_neg hd]
      rfl
  · intro d e hde
    by_cases hd : d = c
    · subst hd
      rw [he] at hde
      cases hde
      exact ⟨_, List.getElem?_set_self h, rfl⟩
    · exact ⟨e, (List.getElem?_set_ne (Ne.symm hd)).trans hde, rfl⟩

theorem scheduleManaged_eq (s : Sched) : ∃ b, s.scheduleManaged = { s with scheduled := b } := by
  rw [Sched.scheduleManaged]
  split
  · exact ⟨s.scheduled, rfl⟩
  · exact ⟨true, rfl⟩

theorem releaseManaged_eq (s : Sched) (c now : Nat) :
    ∃ entries b u, s.releaseManaged c now = { s with entries, scheduled := b, underflow := u } ∧
      entries.length = s.entries.length ∧
      (∀ d, activeOf entries d = activeOf s.entries d - if d = c then 1 else 0) ∧
      (0 < activeOf s.entries c → u = s.underflow) ∧
      ∀ (d : Nat) e, s.entries[d]? = some e →
        ∃ e', entries[d]? = some e' ∧ (e.closed = true → e'.closed = true) := by
  rw [Sched.releaseManaged]
  cases he : s.entries[c]? with
  | none =>
    obtain ⟨b, hb⟩ := scheduleManaged_eq s
    refine ⟨s.entries, b, s.underflow, hb, rfl, ?_, fun _ => rfl, fun d e h => ⟨e, h, id⟩⟩
    intro d
    by_cases hd : d = c
    · rw [hd, activeOf, he]
      exact (Nat.zero_sub _).symm
    · rw [if_neg hd]
      rfl
  | some e =>
    have hset : ∀ e' : ManagedConnection, e'.active = e.active - 1 →
        (e.closed = true → e'.closed = true) →
        ∃ entries b u, ({ s with underflow := s.underflow || decide (e.active = 0) }.setEntry c
            e').scheduleManaged = { s with entries, scheduled := b, underflow := u } ∧
          entries.length = s.entries.length ∧
          (∀ d, activeOf entries d = activeOf s.entries d - if d = c then 1 else 0) ∧
          (0 < activeOf s.entries c → u = s.underflow) ∧
          ∀ (d : Nat) e, s.entries[d]? = some e →
            ∃ e', entries[d]? = some e' ∧ (e.closed = true → e'.closed = true) := by
      intro e' ha hcl
      have hlt := (List.getElem?_eq_some_iff.1 he).1
      obtain ⟨b, hb⟩ := scheduleManaged_eq
        ({ s with underflow := s.underflow || decide (e.active = 0) }.setEntry c e')
      refine ⟨s.entries.set c e', b, s.underflow || decide (e.active = 0), hb, List.length_set,
        ?_, ?_, ?_⟩
      · intro d
        by_cases hd : d = c
        · rw [hd, activeOf, activeOf, List.getElem?_set_self hlt, he, if_pos rfl]
          exact ha
        · rw [activeOf, activeOf, List.getElem?_set_ne (Ne.symm hd), if_neg hd]
          rfl
      · intro hpos
        rw [activeOf, he] at hpos
        have hne : e.active ≠ 0 := Nat.pos_iff_ne_zero.1 hpos
        rw [decide_eq_false hne, Bool.or_false]
      · intro d e₁ hd₁
        by_cases hd : d = c
        · subst hd
          rw [he] at hd₁
          cases hd₁
          exact ⟨e', List.getElem?_set_self hlt, hcl⟩
        · exact ⟨e₁, (List.getElem?_set_ne (Ne.symm hd)).trans hd₁, id⟩
    dsimp only
    split
    · split
      · exact hset _ rfl fun _ => rfl
      · exact hset _ rfl id
    · exact hset _ rfl id

theorem Lined.keep {o o' : ManagedOrigin} (h : Lined o) (ho : o'.options = o.options)
    (hw : o'.waiters = o.waiters) (hn : o'.tickets = o.tickets) (hs : o'.served = o.served)
    (ht : ∀ i, ticketAt o'.requests i = ticketAt o.requests i)
    (hi : ∀ (i : Nat) r, o'.requests[i]? = some r → r.ticket ≠ none → r.reservation = none) :
    Lined o' := by
  refine ⟨?_, ?_, ?_, ?_, ?_, hi, ?_⟩
  · rw [hw, ho]
    exact h.bound
  · rw [hw]
    exact h.nodup
  · intro i
    rw [hw, ht]
    exact h.mem i
  · rw [hw]
    exact h.order.imp fun hij t t' he he' => hij t t' (ht _ ▸ he) (ht _ ▸ he')
  · intro i t he
    rw [hn]
    exact h.fresh i t (ht i ▸ he)
  · rw [hs]
    exact h.served

theorem Lined.idle_set {o : ManagedOrigin} (h : Lined o)
    (hr : r'.ticket ≠ none → r'.reservation = none) (i : Nat) :
    ∀ (j : Nat) r, (o.requests.set i r')[j]? = some r → r.ticket ≠ none → r.reservation = none := by
  intro j r hj hn
  rw [List.getElem?_set] at hj
  split at hj
  · split at hj
    · cases hj
      exact hr hn
    · cases hj
  · exact h.idle j r hj hn

theorem Lined.leave {o o' : ManagedOrigin} (h : Lined o) (hr : o.requests[i]? = some r)
    (hn : r'.ticket = none) (ho : o'.options = o.options) (hq : o'.requests = o.requests.set i r')
    (hw : o'.waiters = o.waiters.erase i) (ht : o'.tickets = o.tickets)
    (hs : ∀ v ∈ o'.served, match v.ticket with
      | some t => ∀ t' ∈ v.left, t < t'
      | none => v.left = []) : Lined o' := by
  have hsub : (o.waiters.erase i).Sublist o.waiters := List.erase_sublist
  have hmem : ∀ j, j ∈ o.waiters.erase i ↔ j ≠ i ∧ j ∈ o.waiters := fun j => h.nodup.mem_erase_iff
  have hat : ∀ j ∈ o.waiters.erase i, ticketAt o'.requests j = ticketAt o.requests j := by
    intro j hj
    rw [hq, ticketAt_set_ne (Ne.symm ((hmem j).1 hj).1)]
  refine ⟨?_, ?_, ?_, ?_, ?_, ?_, hs⟩
  · rw [hw, ho]
    exact Nat.le_trans hsub.length_le h.bound
  · rw [hw]
    exact h.nodup.sublist hsub
  · intro j
    rw [hw, hmem, hq]
    by_cases hj : j = i
    · rw [hj, ticketAt_set_self hr, hn]
      exact ⟨fun he => absurd rfl he.1, fun he => absurd rfl he⟩
    · rw [ticketAt_set_ne (Ne.symm hj), ← h.mem j]
      exact ⟨fun he => he.2, fun he => ⟨hj, he⟩⟩
  · rw [hw]
    refine List.Pairwise.imp_of_mem ?_ (h.order.sublist hsub)
    intro j k hj hk hjk t t' he he'
    exact hjk t t' (hat j hj ▸ he) (hat k hk ▸ he')
  · intro j t he
    rw [ht]
    rw [hq] at he
    by_cases hj : j = i
    · rw [hj, ticketAt_set_self hr, hn] at he
      cases he
    · rw [ticketAt_set_ne (Ne.symm hj)] at he
      exact h.fresh j t he
  · rw [hq]
    exact h.idle_set (fun he => absurd hn he) i

theorem Lined.behind {o : ManagedOrigin} (h : Lined o) (hw : o.waiters = i :: rest)
    (ht : ticketAt o.requests i = some t) (hj : j ∈ rest) (ht' : ticketAt o.requests j = some t') :
    t < t' := by
  have := h.order
  rw [hw] at this
  exact (List.pairwise_cons.1 this).1 j hj t t' ht ht'

theorem Lined.enqueue (h : Lined s.toManagedOrigin) (hr : s.requests[i]? = some r)
    (ht : r.ticket = none) (hm : s.waiters.length < s.maxQueuedRequestsPerOrigin)
    (ha : w.assigned = none) : Lined (s.enqueue i r' w).toManagedOrigin := by
  have hnew : (ticketAt (s.enqueue i r' w).requests i) = some s.tickets := ticketAt_set_self hr _
  have hold : ∀ j, j ≠ i → ticketAt (s.enqueue i r' w).requests j = ticketAt s.requests j :=
    fun j hj => ticketAt_set_ne (Ne.symm hj) _
  have hni : i ∉ s.waiters := by
    rw [h.mem i, ticketAt_of hr, ht]
    exact fun he => he rfl
  have hi : ∀ t, ({ r' with phase := .waiting { w with queued := true, ticket := t } } :
      Request).reservation = none := fun _ => ha
  refine ⟨?_, ?_, ?_, ?_, ?_, h.idle_set (fun _ => hi _) i, h.served⟩
  · change (s.waiters ++ [i]).length ≤ _
    rw [List.length_append]
    exact hm
  · change (s.waiters ++ [i]).Nodup
    rw [← List.concat_eq_append]
    exact h.nodup.concat hni
  · intro j
    change j ∈ s.waiters ++ [i] ↔ _
    rw [List.mem_append, List.mem_singleton]
    by_cases hj : j = i
    · rw [hj, hnew]
      exact ⟨fun _ he => Option.some_ne_none _ he, fun _ => .inr rfl⟩
    · rw [hold j hj, ← h.mem j]
      exact ⟨fun he => he.resolve_right hj, .inl⟩
  · refine List.pairwise_append.2 ⟨?_, List.pairwise_singleton _ _, ?_⟩
    · refine List.Pairwise.imp_of_mem ?_ h.order
      intro j k hj hk hjk t t' he he'
      rw [hold j fun e => hni (e ▸ hj)] at he
      rw [hold k fun e => hni (e ▸ hk)] at he'
      exact hjk t t' he he'
    · intro j hj k hk t t' he he'
      rw [List.mem_singleton.1 hk, hnew] at he'
      cases he'
      rw [hold j fun e => hni (e ▸ hj)] at he
      exact h.fresh j t he
  · intro j t he
    change t < s.tickets + 1
    by_cases hj : j = i
    · rw [hj, hnew] at he
      cases he
      exact Nat.lt_succ_self _
    · rw [hold j hj] at he
      exact Nat.lt_succ_of_lt (h.fresh j t he)

theorem ticketAt_append (hr : r.ticket = none) (i : Nat) :
    ticketAt (requests ++ [r]) i = ticketAt requests i := by
  rw [ticketAt, ticketAt]
  rcases Nat.lt_trichotomy i requests.length with hlt | rfl | hgt
  · rw [List.getElem?_append_left hlt]
  · rw [List.getElem?_concat_length, List.getElem?_eq_none (Nat.le_refl _)]
    exact hr
  · rw [List.getElem?_eq_none (by rw [List.length_append]; exact hgt),
      List.getElem?_eq_none (Nat.le_of_lt hgt)]

theorem Move.lined (hm : Move s s') (h : Lined s.toManagedOrigin) : Lined s'.toManagedOrigin := by
  cases hm with
  | settle hr hres _ ht =>
    refine h.keep rfl rfl rfl rfl (ticketAt_set_same hr ht) (h.idle_set ?_ _)
    rw [ht, hres]
    exact h.idle _ _ hr
  | leave hr ht _ _ hn => exact h.leave hr hn rfl rfl rfl rfl h.served
  | @grant i t rest c s r r' hr ht _ hw _ hlt _ _ hn =>
    obtain ⟨entries, he, -, -⟩ := reserve_eq s hlt
    rw [he]
    refine h.leave hr hn rfl rfl rfl rfl ?_
    intro v hv
    cases hv with
    | head =>
      intro t' hleft
      obtain ⟨j, hj, ht'⟩ := List.mem_filterMap.1 hleft
      rw [hw, List.erase_cons_head] at hj
      have hjw : j ∈ s.waiters := hw ▸ .tail _ hj
      exact h.behind hw (ticketAt_of hr ▸ ht) hj (ticketAt_of_ticketOf ht' ((h.mem j).1 hjw))
    | tail _ hv => exact h.served v hv
  | @direct i c s r r' hr ht hi hw _ hlt _ _ hn =>
    obtain ⟨entries, he, -, -⟩ := reserve_eq s hlt
    rw [he]
    have hk : Lined { s with requests := s.requests.set i r' }.toManagedOrigin :=
      h.keep rfl rfl rfl rfl (ticketAt_set_same hr (hn.trans ht.symm))
        (h.idle_set (fun he => absurd hn he) _)
    refine ⟨hk.bound, hk.nodup, hk.mem, hk.order, hk.fresh, hk.idle, ?_⟩
    intro v hv
    cases hv with
    | head =>
      rw [hw]
      rfl
    | tail _ hv => exact h.served v hv
  | enqueue hr ht hi hm ha => exact h.enqueue hr ht hm ha
  | @free i now s r r' a hr ht _ _ _ _ hn =>
    obtain ⟨entries, b, u, he, -⟩ := releaseManaged_eq
      ({ s with freed := a.number :: s.freed }.setRequest i r') a.connection now
    rw [he]
    exact h.keep rfl rfl rfl rfl (ticketAt_set_same hr (hn.trans ht.symm))
      (h.idle_set (fun he => absurd hn he) _)
  | @giveBack i now s r r' a hr ht _ _ _ _ hn =>
    obtain ⟨entries, b, u, he, -⟩ := releaseManaged_eq
      ({ s with returned := a.number :: s.returned }.setRequest i r') a.connection now
    rw [he]
    exact h.keep rfl rfl rfl rfl (ticketAt_set_same hr (hn.trans ht.symm))
      (h.idle_set (fun he => absurd hn he) _)
  | claim hr ht _ _ _ _ hn =>
    exact h.keep rfl rfl rfl rfl (ticketAt_set_same hr (hn.trans ht.symm))
      (h.idle_set (fun he => absurd hn he) _)
  | schedule b | clients entries _ _ _ | erase connections _ _ | make now _ _ =>
    exact h.keep rfl rfl rfl rfl (fun _ => rfl) h.idle
  | @join s r hr =>
    have ht : r.ticket = none := by rw [Request.ticket, hr]
    refine h.keep rfl rfl rfl rfl (ticketAt_append ht) ?_
    intro i r₁ hi hn
    rw [List.getElem?_append] at hi
    split at hi
    · exact h.idle i r₁ hi hn
    · have hr₁ : r₁ = r := List.mem_singleton.1 (List.mem_of_getElem? hi)
      exact absurd (hr₁ ▸ ht) hn

theorem Move.same (hm : Move s s') :
    s'.stopping = s.stopping ∧ s'.identity = s.identity ∧ s'.options = s.options := by
  cases hm with
  | settle | leave | enqueue | claim | schedule | clients | erase | make | join =>
    exact ⟨rfl, rfl, rfl⟩
  | @grant i t rest c s r r' _ _ _ _ _ hlt _ _ _ | @direct i c s r r' _ _ _ _ _ hlt _ _ _ =>
    obtain ⟨entries, he, -⟩ := reserve_eq s hlt
    rw [he]
    exact ⟨rfl, rfl, rfl⟩
  | @free i now s r r' a _ _ _ _ _ _ _ =>
    obtain ⟨entries, b, u, he, -⟩ := releaseManaged_eq
      ({ s with freed := a.number :: s.freed }.setRequest i r') a.connection now
    rw [he]
    exact ⟨rfl, rfl, rfl⟩
  | @giveBack i now s r r' a _ _ _ _ _ _ _ =>
    obtain ⟨entries, b, u, he, -⟩ := releaseManaged_eq
      ({ s with returned := a.number :: s.returned }.setRequest i r') a.connection now
    rw [he]
    exact ⟨rfl, rfl, rfl⟩

end Hical.Client.Managed
