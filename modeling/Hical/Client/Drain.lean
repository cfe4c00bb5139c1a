import Hical.Client.Scheduling

namespace Hical.Client.Managed

variable {s s' : Sched} {r r' : Request} {w w' : ManagedWaiter} {a : Reservation}

theorem Moves.lined (hm : Moves s s') (h : Lined s.toManagedOrigin) : Lined s'.toManagedOrigin := by
  induction hm with
  | refl => exact h
  | tail _ hm ih => exact hm.lined ih

theorem scan_spec (entries : List ManagedConnection) (connections : List Nat) (starting : Bool) :
    let found := Sched.scan entries connections starting
    found.1.Sublist connections ∧
      (∀ c ∈ connections, c ∉ found.1 → activeOf entries c = 0) ∧
      ∀ c, found.2.2 = some c → c ∈ found.1 ∧ c < entries.length := by
  induction connections generalizing starting with
  | nil =>
    refine ⟨.slnil, fun c hc => ?_, fun c hc => ?_⟩
    · cases hc
    · cases hc
  | cons c rest ih =>
    have hkeep : ∀ starting : Bool,
        let found := Sched.scan entries rest starting
        (c :: found.1).Sublist (c :: rest) ∧
          (∀ d ∈ c :: rest, d ∉ c :: found.1 → activeOf entries d = 0) ∧
          ∀ d, found.2.2 = some d → d ∈ c :: found.1 ∧ d < entries.length := by
      intro starting
      obtain ⟨hs, hd, hf⟩ := ih starting
      refine ⟨hs.cons_cons c, ?_, fun d hd => ⟨.tail _ (hf d hd).1, (hf d hd).2⟩⟩
      intro d hmem hn
      cases hmem with
      | head => exact absurd List.mem_cons_self hn
      | tail _ hmem => exact hd d hmem fun he => hn (.tail _ he)
    have hdrop : ∀ starting : Bool, activeOf entries c = 0 →
        let found := Sched.scan entries rest starting
        found.1.Sublist (c :: rest) ∧
          (∀ d ∈ c :: rest, d ∉ found.1 → activeOf entries d = 0) ∧
          ∀ d, found.2.2 = some d → d ∈ found.1 ∧ d < entries.length := by
      intro starting ha
      obtain ⟨hs, hd, hf⟩ := ih starting
      refine ⟨hs.cons c, ?_, hf⟩
      intro d hmem hn
      cases hmem with
      | head => exact ha
      | tail _ hmem => exact hd d hmem hn
    rw [Sched.scan]
    cases he : entries[c]? with
    | none =>
      refine hdrop starting ?_
      rw [activeOf, he]
      rfl
    | some e =>
      have hactive : activeOf entries c = e.active := by
        rw [activeOf, he]
        rfl
      have hfound : ∀ starting : Bool,
          (c :: rest).Sublist (c :: rest) ∧
            (∀ d ∈ c :: rest, d ∉ c :: rest → activeOf entries d = 0) ∧
            ∀ d, some c = some d → d ∈ c :: rest ∧ d < entries.length := by
        intro _
        refine ⟨List.Sublist.refl _, fun d hd hn => absurd hd hn, fun d hd => ?_⟩
        cases hd
        exact ⟨List.mem_cons_self, (List.getElem?_eq_some_iff.1 he).1⟩
      dsimp only
      split
      · split
        · next hz =>
          have hz : e.active = 0 := of_decide_eq_true (Bool.and_eq_true_iff.1 hz).1
          exact hdrop starting (hactive.trans hz)
        · exact hkeep true
      · split
        · split
          · exact hfound starting
          · exact hkeep starting
        · split
          · exact hfound starting
          · exact hkeep _

/-- What `selectManaged` gives, and that it works on the connections only. -/
theorem selectManaged_spec (s : Sched) (now : Nat) (hs : s.stopping = false) :
    Moves s (s.selectManaged now).1 ∧ (s.selectManaged now).1.requests = s.requests ∧
      (s.selectManaged now).1.waiters = s.waiters ∧
      ∀ c, (s.selectManaged now).2 = some c →
        c ∈ (s.selectManaged now).1.connections ∧ c < (s.selectManaged now).1.entries.length := by
  obtain ⟨hsub, hdrop, hfound⟩ := scan_spec s.entries s.connections false
  have herase : Moves s { s with connections := (Sched.scan s.entries s.connections false).1 } :=
    .single (.erase _ hsub hdrop)
  rw [Sched.selectManaged]
  dsimp only
  split
  · next c hc =>
    refine ⟨herase, rfl, rfl, ?_⟩
    intro d hd
    cases hd
    exact hfound c hc
  · split
    · refine ⟨herase, rfl, rfl, ?_⟩
      intro d hd
      cases hd
    · next hn =>
      rw [Bool.or_eq_true, not_or] at hn
      have hm : ¬ (Sched.scan s.entries s.connections false).1.length ≥
          s.maxConnectionsPerOrigin := fun he => hn.2 (decide_eq_true he)
      refine ⟨herase.tail (.make now hs (Nat.lt_of_not_le hm)), rfl, rfl, ?_⟩
      intro d hd
      cases hd
      refine ⟨List.mem_append_right _ List.mem_cons_self, ?_⟩
      rw [List.length_append]
      exact Nat.lt_succ_self _

theorem refreshed_same (s : Sched) (w : ManagedWaiter) (now : Nat) :
    (s.refreshed w now).assigned = w.assigned ∧ (s.refreshed w now).queued = w.queued ∧
      (s.refreshed w now).ticket = w.ticket ∧
      (s.refreshed w now).assignedConnected = w.assignedConnected := by
  rw [Sched.refreshed]
  split
  · split
    · exact ⟨rfl, rfl, rfl, rfl⟩
    · split
      · exact ⟨rfl, rfl, rfl, rfl⟩
      · exact ⟨rfl, rfl, rfl, rfl⟩
  · split
    · exact ⟨rfl, rfl, rfl, rfl⟩
    · exact ⟨rfl, rfl, rfl, rfl⟩

theorem Move.touch (hr : s.requests[i]? = some r) (hp : r.phase = .waiting w)
    (hp' : r'.phase = .waiting w') (ha : w'.assigned = w.assigned) (hq : w'.queued = w.queued)
    (ht : w'.ticket = w.ticket) : Move s (s.setRequest i r') := by
  refine .settle hr ?_ ?_ ?_
  · rw [Request.reservation, Request.reservation, hp, hp']
    exact ha
  · rw [Request.lease, Request.lease, hp, hp']
  · rw [Request.ticket, Request.ticket, hp, hp']
    dsimp only
    rw [hq, ht]

theorem refreshConnectDeadline_moves (clock : Nat → Nat) (s : Sched) (i : Nat) :
    Moves s (s.refreshConnectDeadline clock i) := by
  rw [Sched.refreshConnectDeadline]
  split
  · next r hr =>
    split
    · next w hp =>
      obtain ⟨ha, hq, ht, -⟩ := refreshed_same s w (clock i)
      exact .single (.touch hr hp rfl ha hq ht)
    · exact .refl
  · exact .refl

theorem refresh_moves (clock : Nat → Nat) (l : List Nat) (s : Sched) :
    Moves s (l.foldl (Sched.refreshConnectDeadline clock) s) := by
  induction l generalizing s with
  | nil => exact .refl
  | cons i l ih => exact (refreshConnectDeadline_moves clock s i).trans (ih _)

theorem removeWaiter_moves (hr : s.requests[i]? = some r) (hp : r.phase = .waiting w)
    (ha : w'.assigned = w.assigned) (hq : w'.queued = w.queued) (ht : w'.ticket = w.ticket) :
    Moves s (s.removeWaiter i r' w') := by
  rw [Sched.removeWaiter]
  split
  · next hw =>
    have hticket : r.ticket = some w.ticket := by
      rw [Request.ticket, hp]
      exact if_pos (hq ▸ hw)
    refine .single (.leave hr hticket ?_ ?_ rfl)
    · rw [Request.reservation, Request.reservation, hp]
      exact ha
    · rw [Request.lease, Request.lease, hp]
  · exact .single (.touch hr hp rfl ha hq ht)

theorem removeWaiter_waiters (hq : w.queued = true) :
    (s.removeWaiter i r w).waiters = s.waiters.erase i := by
  rw [Sched.removeWaiter, if_pos hq]

/-- The first waiter of the list, as the loop of `drainManaged` sees it. -/
theorem Lined.first (h : Lined s.toManagedOrigin) (hw : s.waiters = i :: rest) :
    ∃ r w, s.requests[i]? = some r ∧ r.phase = .waiting w ∧ w.queued = true ∧
      r.ticket = some w.ticket ∧ r.reservation = none := by
  have hmem : i ∈ s.waiters := hw ▸ List.mem_cons_self
  obtain ⟨t, ht⟩ := Option.ne_none_iff_exists'.1 ((h.mem i).1 hmem)
  rw [ticketAt, Option.bind_eq_some_iff] at ht
  obtain ⟨r, hr, ht⟩ := ht
  obtain ⟨w, hp, hq, rfl⟩ := waiting_of_ticket ht
  exact ⟨r, w, hr, hp, hq, ht, h.idle i r hr (ht ▸ Option.some_ne_none _)⟩

theorem grant_moves (hr : s.requests[i]? = some r) (hp : r.phase = .waiting w)
    (hq : w.queued = true) (hi : r.reservation = none) (hw : s.waiters = i :: rest)
    (hc : c ∈ s.connections) (hlt : c < s.entries.length) (connected : Bool) :
    Move s (({ (s.reserve c).1 with
          served := ⟨some w.ticket, (s.waiters.erase i).filterMap s.ticketOf⟩ :: s.served } :
        Sched).removeWaiter i r { w with assigned := some (s.reserve c).2, assignedConnected := connected }) := by
  have hticket : r.ticket = some w.ticket := by
    rw [Request.ticket, hp]
    exact if_pos hq
  rw [Sched.removeWaiter, if_pos hq, reserve_number]
  have hres : ({ r with phase := .waiting { w with
      assigned := some ⟨c, s.reserved⟩, assignedConnected := connected, queued := false } } :
    Request).reservation = some ⟨c, s.reserved⟩ := rfl
  have hm := Move.grant hr hticket hi hw hc hlt hres rfl rfl
  obtain ⟨entries, he, -⟩ := reserve_eq s hlt
  rw [he] at hm ⊢
  exact hm

theorem drainLoop_moves (clock : Nat → Nat) (ws : List Nat) (s : Sched)
    (h : Lined s.toManagedOrigin) (hw : s.waiters = ws) :
    Moves s (Sched.drainLoop clock ws s) := by
  induction ws generalizing s with
  | nil => exact .refl
  | cons i rest ih =>
    obtain ⟨r, w, hr, hp, hq, ht, hi⟩ := h.first hw
    -- A waiter that is taken off the list leaves the rest of it to the loop.
    have hnext : ∀ s' : Sched, Moves s s' → s'.waiters = s.waiters.erase i →
        Moves s (Sched.drainLoop clock rest s') := by
      intro s' hm he
      refine hm.trans (ih s' (hm.lined h) ?_)
      rw [he, hw, List.erase_cons_head]
    rw [Sched.drainLoop, hr]
    dsimp only
    rw [hp]
    dsimp only
    split
    · exact hnext _ (removeWaiter_moves hr hp rfl rfl rfl) (removeWaiter_waiters hq)
    · next hs =>
      have hs : s.stopping = false := Bool.eq_false_iff.2 hs
      split
      · exact hnext _ (removeWaiter_moves hr hp rfl rfl rfl) (removeWaiter_waiters hq)
      · split
        · obtain ⟨hsel, hreq, hwait, hfound⟩ := selectManaged_spec s (clock i) hs
          split
          · next s₁ he =>
            rw [he] at hsel
            exact hsel
          · next s₁ c he =>
            rw [he] at hsel hreq hwait hfound
            obtain ⟨hc, hlt⟩ := hfound c rfl
            have hm := grant_moves (hreq ▸ hr) hp hq hi (hwait.trans hw) hc hlt
              (s₁.poolCapacity c).connected
            refine hnext _ (hsel.tail hm) ((removeWaiter_waiters ?_).trans ?_)
            · exact hq
            · obtain ⟨entries, hres, -⟩ := reserve_eq s₁ hlt
              rw [hres]
              exact congrArg (·.erase i) hwait
        · exact hnext _ (removeWaiter_moves hr hp rfl rfl rfl) (removeWaiter_waiters hq)

theorem drainManaged_moves (h : Lined s.toManagedOrigin) (clock : Nat → Nat) :
    Moves s (s.drainManaged clock) := by
  have hm := refresh_moves clock s.waiters s
  exact hm.trans (drainLoop_moves clock _ _ (hm.lined h) rfl)

theorem refreshConnectDeadline_frame (clock : Nat → Nat) (s : Sched) (h : i ≠ j) :
    (s.refreshConnectDeadline clock i).requests[j]? = s.requests[j]? ∧
      (s.refreshConnectDeadline clock i).waiters = s.waiters := by
  rw [Sched.refreshConnectDeadline]
  split
  · split
    · exact ⟨List.getElem?_set_ne h, rfl⟩
    · exact ⟨rfl, rfl⟩
  · exact ⟨rfl, rfl⟩

theorem refresh_frame (clock : Nat → Nat) (l : List Nat) (s : Sched) (h : j ∉ l) :
    (l.foldl (Sched.refreshConnectDeadline clock) s).requests[j]? = s.requests[j]? ∧
      (l.foldl (Sched.refreshConnectDeadline clock) s).waiters = s.waiters := by
  induction l generalizing s with
  | nil => exact ⟨rfl, rfl⟩
  | cons i l ih =>
    have hi : i ≠ j := fun he => h (he ▸ List.mem_cons_self)
    obtain ⟨hr, hw⟩ := refreshConnectDeadline_frame clock s hi
    obtain ⟨hr', hw'⟩ := ih (s.refreshConnectDeadline clock i) fun he => h (.tail _ he)
    exact ⟨hr'.trans hr, hw'.trans hw⟩

theorem removeWaiter_frame (s : Sched) (r : Request) (w : ManagedWaiter) (h : i ≠ j) :
    (s.removeWaiter i r w).requests[j]? = s.requests[j]? := by
  rw [Sched.removeWaiter]
  split
  · exact List.getElem?_set_ne h
  · exact List.getElem?_set_ne h

theorem reserve_requests (s : Sched) (c : Nat) : (s.reserve c).1.requests = s.requests := by
  rw [Sched.reserve]
  cases s.entries[c]? with
  | none => rfl
  | some e => rfl

theorem selectManaged_requests (s : Sched) (now : Nat) :
    (s.selectManaged now).1.requests = s.requests := by
  rw [Sched.selectManaged]
  dsimp only
  split
  · rfl
  · split
    · rfl
    · rfl

theorem drainLoop_frame (clock : Nat → Nat) (ws : List Nat) (s : Sched) (h : j ∉ ws) :
    (Sched.drainLoop clock ws s).requests[j]? = s.requests[j]? := by
  induction ws generalizing s with
  | nil => rfl
  | cons i rest ih =>
    have hi : i ≠ j := fun he => h (he ▸ List.mem_cons_self)
    have hrest : j ∉ rest := fun he => h (.tail _ he)
    have hremove : ∀ (s : Sched) (r : Request) (w : ManagedWaiter),
        (Sched.drainLoop clock rest (s.removeWaiter i r w)).requests[j]? = s.requests[j]? :=
      fun s r w => (ih _ hrest).trans (removeWaiter_frame s r w hi)
    rw [Sched.drainLoop]
    split
    · rfl
    · split
      · split
        · exact hremove _ _ _
        · split
          · exact hremove _ _ _
          · split
            · have hsel := selectManaged_requests s (clock i)
              split
              · next he =>
                rw [he] at hsel
                exact congrArg (·[j]?) hsel
              · next he =>
                rw [he] at hsel
                rw [hremove]
                exact congrArg (·[j]?) ((reserve_requests _ _).trans hsel)
            · exact hremove _ _ _
      · rfl

theorem drainManaged_frame (clock : Nat → Nat) (s : Sched) (h : j ∉ s.waiters) :
    (s.drainManaged clock).requests[j]? = s.requests[j]? := by
  obtain ⟨hr, hw⟩ := refresh_frame clock s.waiters s h
  rw [Sched.drainManaged]
  refine (drainLoop_frame clock _ _ ?_).trans hr
  rw [hw]
  exact h

theorem drainManaged_nil (h : s.waiters = []) (clock : Nat → Nat) : s.drainManaged clock = s := by
  simp only [Sched.drainManaged, h, List.foldl_nil, Sched.drainLoop]

end Hical.Client.Managed
