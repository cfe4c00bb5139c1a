import Hical.Client.Acquire

namespace Hical.Client.Managed
open Ledger

variable {s s' : Sched} {i : Nat} {r r' : Request} {w w' : ManagedWaiter} {a : Reservation}
  {o o' : ManagedOrigin} {requests : List Request}

def onConnection (c : Nat) : Option Reservation → Nat
  | some a => if c = a.connection then 1 else 0
  | none => 0

def numbered (k : Nat) : Option Reservation → Nat
  | some a => if a.number = k then 1 else 0
  | none => 0

/-- What is known of the reservations of an origin. -/
structure Balanced (o : ManagedOrigin) : Prop where
  active : ∀ c, activeOf o.entries c = total (fun r => onConnection c r.reservation) o.requests
  once : ∀ k, total (fun r => numbered k r.reservation) o.requests + o.freed.count k +
    o.returned.count k = if k < o.reserved then 1 else 0
  leased : ∀ k, o.leases.count k = total (fun r => numbered k r.lease) o.requests +
    o.returned.count k
  underflow : o.underflow = false

theorem onConnection_some (c : Nat) (a : Reservation) :
    onConnection c (some a) = if c = a.connection then 1 else 0 := rfl

theorem numbered_some (k : Nat) (a : Reservation) :
    numbered k (some a) = if a.number = k then 1 else 0 := rfl

theorem count_cons_number (k n : Nat) (l : List Nat) :
    (n :: l).count k = l.count k + if n = k then 1 else 0 := by
  rw [List.count_cons]
  by_cases h : n = k
  · rw [if_pos h, if_pos (beq_iff_eq.2 h)]
  · rw [if_neg h, if_neg fun he => h (beq_iff_eq.1 he)]

theorem lease_of_idle (h : r.reservation = none) : r.lease = none := by
  rw [Request.reservation] at h
  rw [Request.lease]
  split at h
  · next hp => rw [hp]
  · cases h
  · next h₁ h₂ =>
    split
    · next a hp => exact absurd hp (h₂ a)
    · rfl

theorem total_phase (h : requests[i]? = some r) (r' : Request) (f : Option Reservation → Nat) :
    total (fun r => f r.reservation) (requests.set i r') + f r.reservation =
        total (fun r => f r.reservation) requests + f r'.reservation ∧
      total (fun r => f r.lease) (requests.set i r') + f r.lease =
        total (fun r => f r.lease) requests + f r'.lease :=
  ⟨total_set h r', total_set h r'⟩

theorem Balanced.keep (h : Balanced o) (he : ∀ c, activeOf o'.entries c = activeOf o.entries c)
    (hr : ∀ f : Option Reservation → Nat, f none = 0 →
      total (fun r => f r.reservation) o'.requests = total (fun r => f r.reservation) o.requests)
    (hl : ∀ f : Option Reservation → Nat, f none = 0 →
      total (fun r => f r.lease) o'.requests = total (fun r => f r.lease) o.requests)
    (hg : o'.reserved = o.reserved ∧ o'.leases = o.leases ∧ o'.freed = o.freed ∧
      o'.returned = o.returned ∧ o'.underflow = o.underflow) : Balanced o' := by
  obtain ⟨h₁, h₂, h₃, h₄, h₅⟩ := hg
  refine ⟨?_, ?_, ?_, h₅.trans h.underflow⟩
  · intro c
    rw [he, hr (onConnection c) rfl]
    exact h.active c
  · intro k
    rw [hr (numbered k) rfl, h₁, h₃, h₄]
    exact h.once k
  · intro k
    rw [hl (numbered k) rfl, h₂, h₄]
    exact h.leased k

theorem Balanced.set (h : Balanced o) (hr : o.requests[i]? = some r)
    (hres : r'.reservation = r.reservation) (hl : r'.lease = r.lease)
    (he : o'.entries = o.entries) (hq : o'.requests = o.requests.set i r')
    (hg : o'.reserved = o.reserved ∧ o'.leases = o.leases ∧ o'.freed = o.freed ∧
      o'.returned = o.returned ∧ o'.underflow = o.underflow) : Balanced o' := by
  refine h.keep (fun c => by rw [he]) ?_ ?_ hg
  · intro f _
    have := (total_phase hr r' f).1
    rw [hres] at this
    rw [hq]
    omega
  · intro f _
    have := (total_phase hr r' f).2
    rw [hl] at this
    rw [hq]
    omega

theorem Balanced.reserve (h : Balanced o) (hr : o.requests[i]? = some r)
    (hi : r.reservation = none) (hres : r'.reservation = some ⟨c, o.reserved⟩)
    (he : ∀ d, activeOf o'.entries d = activeOf o.entries d + if d = c then 1 else 0)
    (hq : o'.requests = o.requests.set i r') (hn : o'.reserved = o.reserved + 1)
    (hf : o'.freed = o.freed) (hb : o'.returned = o.returned)
    (hl : ∀ k, o'.leases.count k = o.leases.count k + numbered k r'.lease)
    (hu : o'.underflow = o.underflow) : Balanced o' := by
  refine ⟨?_, ?_, ?_, hu.trans h.underflow⟩
  · intro d
    have ht := (total_phase hr r' (onConnection d)).1
    rw [hi, hres, onConnection_some] at ht
    rw [he, hq, h.active]
    exact ht.symm
  · intro k
    have ht := (total_phase hr r' (numbered k)).1
    rw [hi, hres, numbered_some] at ht
    have ht : total (fun r => numbered k r.reservation) (o.requests.set i r') =
      total (fun r => numbered k r.reservation) o.requests + if o.reserved = k then 1 else 0 := ht
    have ho := h.once k
    rw [hq, hn, hf, hb, ht]
    by_cases hk : o.reserved = k
    · rw [if_neg (by omega)] at ho
      rw [if_pos hk, if_pos (by omega)]
      omega
    · rw [if_neg hk]
      by_cases hlt : k < o.reserved
      · rw [if_pos hlt] at ho
        rw [if_pos (by omega)]
        omega
      · rw [if_neg hlt] at ho
        rw [if_neg (by omega)]
        omega
  · intro k
    have ht := (total_phase hr r' (numbered k)).2
    rw [lease_of_idle hi] at ht
    have ht : total (fun r => numbered k r.lease) (o.requests.set i r') =
      total (fun r => numbered k r.lease) o.requests + numbered k r'.lease := ht
    have := h.leased k
    rw [hl, hq, hb, ht]
    omega

theorem Balanced.claim (h : Balanced s.toManagedOrigin) (hr : s.requests[i]? = some r)
    (hres : r.reservation = some a) (hl : r.lease = none) (hres' : r'.reservation = some a)
    (hl' : r'.lease = some a) :
    Balanced { s.setRequest i r' with leases := a.number :: s.leases }.toManagedOrigin := by
  refine ⟨?_, ?_, ?_, h.underflow⟩
  · intro d
    change activeOf s.entries d = total _ (s.requests.set i r')
    have ht := (total_phase hr r' (onConnection d)).1
    rw [hres, hres'] at ht
    have := h.active d
    omega
  · intro k
    change total _ (s.requests.set i r') + s.freed.count k + s.returned.count k =
      if k < s.reserved then 1 else 0
    have ht := (total_phase hr r' (numbered k)).1
    rw [hres, hres'] at ht
    have := h.once k
    omega
  · intro k
    change (a.number :: s.leases).count k = total _ (s.requests.set i r') + s.returned.count k
    have ht := (total_phase hr r' (numbered k)).2
    rw [hl, hl', numbered_some] at ht
    have ht : total (fun r => numbered k r.lease) (s.requests.set i r') =
      total (fun r => numbered k r.lease) s.requests + if a.number = k then 1 else 0 := ht
    have := h.leased k
    rw [ht, count_cons_number]
    omega

theorem Balanced.release (h : Balanced o) (hr : o.requests[i]? = some r)
    (hres : r.reservation = some a) (hi : r'.reservation = none)
    (he : ∀ d, activeOf o'.entries d = activeOf o.entries d - if d = a.connection then 1 else 0)
    (hu : 0 < activeOf o.entries a.connection → o'.underflow = o.underflow)
    (hq : o'.requests = o.requests.set i r') (hn : o'.reserved = o.reserved)
    (hb : ∀ k, o'.freed.count k + o'.returned.count k =
      o.freed.count k + o.returned.count k + if a.number = k then 1 else 0)
    (hl : ∀ k, o'.leases.count k = total (fun r => numbered k r.lease) (o.requests.set i r') +
      o'.returned.count k) : Balanced o' := by
  have hcount : ∀ d, total (fun r => onConnection d r.reservation) (o.requests.set i r') +
      (if d = a.connection then 1 else 0) = activeOf o.entries d := by
    intro d
    have ht := (total_phase hr r' (onConnection d)).1
    rw [hres, hi] at ht
    rw [h.active]
    exact ht
  refine ⟨?_, ?_, ?_, ?_⟩
  · intro d
    have := hcount d
    rw [he, hq]
    omega
  · intro k
    have ht := (total_phase hr r' (numbered k)).1
    rw [hres, hi] at ht
    have ht : total (fun r => numbered k r.reservation) (o.requests.set i r') +
      (if a.number = k then 1 else 0) = total (fun r => numbered k r.reservation) o.requests := ht
    have ho := h.once k
    have hb := hb k
    rw [hq, hn]
    omega
  · intro k
    rw [hq]
    exact hl k
  · have hc := hcount a.connection
    rw [if_pos rfl] at hc
    exact (hu (by omega)).trans h.underflow

theorem Balanced.free (h : Balanced s.toManagedOrigin) (hr : s.requests[i]? = some r)
    (hres : r.reservation = some a) (hl : r.lease = none) (hi : r'.reservation = none)
    (hl' : r'.lease = none) (now : Nat) :
    Balanced (({ s with freed := a.number :: s.freed }.setRequest i r').releaseManaged
      a.connection now).toManagedOrigin := by
  obtain ⟨entries, b, u, he, -, ha, hu, -⟩ := releaseManaged_eq
    ({ s with freed := a.number :: s.freed }.setRequest i r') a.connection now
  rw [he]
  refine h.release hr hres hi ha hu rfl rfl ?_ ?_
  · intro k
    change (a.number :: s.freed).count k + s.returned.count k = _
    rw [count_cons_number]
    omega
  · intro k
    have ht := (total_phase hr r' (numbered k)).2
    rw [hl, hl'] at ht
    have := h.leased k
    change s.leases.count k = _ + s.returned.count k
    omega

theorem Balanced.giveBack (h : Balanced s.toManagedOrigin) (hr : s.requests[i]? = some r)
    (hres : r.reservation = some a) (hl : r.lease = some a) (hi : r'.reservation = none)
    (hl' : r'.lease = none) (now : Nat) :
    Balanced (({ s with returned := a.number :: s.returned }.setRequest i r').releaseManaged
      a.connection now).toManagedOrigin := by
  obtain ⟨entries, b, u, he, -, ha, hu, -⟩ := releaseManaged_eq
    ({ s with returned := a.number :: s.returned }.setRequest i r') a.connection now
  rw [he]
  refine h.release hr hres hi ha hu rfl rfl ?_ ?_
  · intro k
    change s.freed.count k + (a.number :: s.returned).count k = _
    rw [count_cons_number]
    omega
  · intro k
    have ht := (total_phase hr r' (numbered k)).2
    rw [hl, hl', numbered_some] at ht
    have ht : total (fun r => numbered k r.lease) (s.requests.set i r') +
      (if a.number = k then 1 else 0) = total (fun r => numbered k r.lease) s.requests := ht
    have := h.leased k
    change s.leases.count k = _ + (a.number :: s.returned).count k
    rw [count_cons_number]
    omega

theorem activeOf_append (entries : List ManagedConnection) (now c : Nat) :
    activeOf (entries ++ [{ idleSince := now }]) c = activeOf entries c := by
  rw [activeOf, activeOf]
  rcases Nat.lt_trichotomy c entries.length with hlt | rfl | hgt
  · rw [List.getElem?_append_left hlt]
  · rw [List.getElem?_concat_length, List.getElem?_eq_none (Nat.le_refl _)]
    rfl
  · rw [List.getElem?_eq_none (by rw [List.length_append]; exact hgt),
      List.getElem?_eq_none (Nat.le_of_lt hgt)]

theorem Move.balanced (hm : Move s s') (h : Balanced s.toManagedOrigin) :
    Balanced s'.toManagedOrigin := by
  cases hm with
  | settle hr hres hl _ | leave hr _ hres hl _ => exact h.set hr hres hl rfl rfl ⟨rfl, rfl, rfl, rfl, rfl⟩
  | @grant i t rest c s r r' hr _ hi _ _ hlt hres hl _ =>
    obtain ⟨entries, he, -, ha, -⟩ := reserve_eq s hlt
    rw [he]
    refine h.reserve hr hi hres ha rfl rfl rfl rfl (fun k => ?_) rfl
    rw [hl]
    rfl
  | @direct i c s r r' hr _ hi _ _ hlt hres hl _ =>
    obtain ⟨entries, he, -, ha, -⟩ := reserve_eq s hlt
    rw [he]
    refine h.reserve hr hi hres ha rfl rfl rfl rfl (fun k => ?_) rfl
    rw [hl]
    exact count_cons_number k s.reserved s.leases
  | @enqueue i s r r' w hr _ hi _ ha =>
    refine h.set hr ?_ ?_ rfl rfl ⟨rfl, rfl, rfl, rfl, rfl⟩
    · rw [hi]
      exact ha
    · rw [lease_of_idle hi]
      rfl
  | free hr _ hres hl hi hl' _ => exact h.free hr hres hl hi hl' _
  | giveBack hr _ hres hl hi hl' _ => exact h.giveBack hr hres hl hi hl' _
  | claim hr _ hres hl hres' hl' _ => exact h.claim hr hres hl hres' hl'
  | schedule b | erase connections _ _ => exact ⟨h.active, h.once, h.leased, h.underflow⟩
  | clients entries _ ha _ =>
    exact h.keep ha (fun _ _ => rfl) (fun _ _ => rfl) ⟨rfl, rfl, rfl, rfl, rfl⟩
  | make now _ _ =>
    exact h.keep (activeOf_append _ now) (fun _ _ => rfl) (fun _ _ => rfl) ⟨rfl, rfl, rfl, rfl, rfl⟩
  | @join s r hr =>
    have hres : r.reservation = none := by rw [Request.reservation, hr]
    refine h.keep (fun _ => rfl) ?_ ?_ ⟨rfl, rfl, rfl, rfl, rfl⟩
    · intro f hf
      change total _ (s.requests ++ [r]) = _
      rw [total_append, total_cons, total_nil, hres, hf]
      rfl
    · intro f hf
      change total _ (s.requests ++ [r]) = _
      rw [total_append, total_cons, total_nil, lease_of_idle hres, hf]
      rfl

/-- The connections of an origin: they are not too many, and those in use are among them. -/
structure Housed (o : ManagedOrigin) : Prop where
  bound : o.connections.length ≤ o.options.http2.maxConnectionsPerOrigin.toNat
  nodup : o.connections.Nodup
  made : ∀ c ∈ o.connections, c < o.entries.length
  kept : ∀ c, 0 < activeOf o.entries c → c ∈ o.connections

theorem Housed.keep (h : Housed o) (ho : o'.options = o.options)
    (hc : o'.connections = o.connections) (hl : o'.entries.length = o.entries.length)
    (ha : ∀ c, 0 < activeOf o'.entries c → 0 < activeOf o.entries c ∨ c ∈ o.connections) :
    Housed o' := by
  refine ⟨?_, ?_, ?_, ?_⟩
  · rw [hc, ho]
    exact h.bound
  · rw [hc]
    exact h.nodup
  · intro c hmem
    rw [hc] at hmem
    rw [hl]
    exact h.made c hmem
  · intro c hpos
    rw [hc]
    rcases ha c hpos with hpos | hmem
    · exact h.kept c hpos
    · exact hmem

theorem Housed.reserve (h : Housed s.toManagedOrigin) (hc : c ∈ s.connections)
    (hlt : c < s.entries.length) (ho : o'.options = s.options)
    (hq : o'.connections = s.connections) (he : o'.entries = (s.reserve c).1.entries) :
    Housed o' := by
  obtain ⟨entries, hres, hlen, ha, -⟩ := reserve_eq s hlt
  have he : o'.entries = entries := by
    rw [he, hres]
  refine h.keep ho hq (by rw [he, hlen]) ?_
  intro d hpos
  rw [he, ha] at hpos
  by_cases hd : d = c
  · exact .inr (hd ▸ hc)
  · rw [if_neg hd] at hpos
    exact .inl hpos

theorem Housed.release (h : Housed s.toManagedOrigin) (c now : Nat) :
    Housed (s.releaseManaged c now).toManagedOrigin := by
  obtain ⟨entries, b, u, he, hlen, ha, -⟩ := releaseManaged_eq s c now
  rw [he]
  refine h.keep rfl rfl hlen ?_
  intro d hpos
  have hpos : 0 < activeOf entries d := hpos
  rw [ha] at hpos
  exact .inl (by omega)

theorem Move.housed (hm : Move s s') (h : Housed s.toManagedOrigin) :
    Housed s'.toManagedOrigin := by
  cases hm with
  | settle | leave | enqueue | claim | schedule | join => exact ⟨h.bound, h.nodup, h.made, h.kept⟩
  | @grant i t rest c s r r' _ _ _ _ hc hlt _ _ _ | @direct i c s r r' _ _ _ _ hc hlt _ _ _ =>
    refine h.reserve hc hlt ?_ ?_ rfl
    · obtain ⟨entries, he, -⟩ := reserve_eq s hlt
      rw [he]
      rfl
    · obtain ⟨entries, he, -⟩ := reserve_eq s hlt
      rw [he]
      rfl
  | @free i now s r r' a _ _ _ _ _ _ _ =>
    have hs : Housed ({ s with freed := a.number :: s.freed }.setRequest i r').toManagedOrigin :=
      ⟨h.bound, h.nodup, h.made, h.kept⟩
    exact hs.release a.connection now
  | @giveBack i now s r r' a _ _ _ _ _ _ _ =>
    have hs : Housed ({ s with returned := a.number :: s.returned }.setRequest i r').toManagedOrigin :=
      ⟨h.bound, h.nodup, h.made, h.kept⟩
    exact hs.release a.connection now
  | clients entries hl ha _ =>
    refine h.keep rfl rfl hl fun c hpos => .inl ?_
    rw [← ha c]
    exact hpos
  | @erase s connections hs ha =>
    refine ⟨Nat.le_trans hs.length_le h.bound, h.nodup.sublist hs,
      fun c hc => h.made c (hs.subset hc), ?_⟩
    intro c hpos
    by_contra hn
    have := ha c (h.kept c hpos) hn
    exact Nat.lt_irrefl 0 (this ▸ hpos)
  | @make s now _ hm =>
    refine ⟨?_, ?_, ?_, ?_⟩
    · change (s.connections ++ [s.entries.length]).length ≤ _
      rw [List.length_append]
      exact hm
    · change (s.connections ++ [s.entries.length]).Nodup
      rw [← List.concat_eq_append]
      exact h.nodup.concat fun hc => Nat.lt_irrefl _ (h.made _ hc)
    · intro c hc
      change c < (s.entries ++ [_]).length
      rw [List.length_append]
      rcases List.mem_append.1 hc with hc | hc
      · exact Nat.lt_succ_of_lt (h.made c hc)
      · rw [List.mem_singleton.1 hc]
        exact Nat.lt_succ_self _
    · intro c hpos
      have hpos : 0 < activeOf (s.entries ++ [{ idleSince := now }]) c := hpos
      rw [activeOf_append] at hpos
      exact List.mem_append_left _ (h.kept c hpos)

/-- The pool counts those who wait here, and `n` others. -/
def Counted (n : Nat) (s : Sched) : Prop := s.queuedRequests = s.waiters.length + n

theorem Counted.leave (h : Counted n s) (hl : Lined s.toManagedOrigin)
    (hr : s.requests[i]? = some r) (ht : r.ticket = some t) :
    s.queuedRequests - 1 = (s.waiters.erase i).length + n := by
  have hmem : i ∈ s.waiters := by
    rw [hl.mem i, ticketAt_of hr, ht]
    exact Option.some_ne_none _
  have hpos := List.length_pos_of_mem hmem
  rw [List.length_erase_of_mem hmem]
  rw [Counted] at h
  omega

theorem Move.counted (hm : Move s s') (hl : Lined s.toManagedOrigin) (h : Counted n s) :
    Counted n s' := by
  cases hm with
  | settle | claim | schedule | clients | erase | make | join => exact h
  | leave hr ht _ _ _ => exact h.leave hl hr ht
  | @grant i t rest c s r r' hr ht _ _ _ hlt _ _ _ =>
    obtain ⟨entries, he, -⟩ := reserve_eq s hlt
    rw [he]
    exact h.leave hl hr ht
  | @direct i c s r r' _ _ _ _ _ hlt _ _ _ =>
    obtain ⟨entries, he, -⟩ := reserve_eq s hlt
    rw [he]
    exact h
  | @enqueue i s r r' w _ _ _ _ _ =>
    rw [Counted] at h
    change s.queuedRequests + 1 = (s.waiters ++ [i]).length + n
    rw [List.length_append, h]
    change _ = s.waiters.length + 1 + n
    omega
  | @free i now s r r' a _ _ _ _ _ _ _ =>
    obtain ⟨entries, b, u, he, -⟩ := releaseManaged_eq
      ({ s with freed := a.number :: s.freed }.setRequest i r') a.connection now
    rw [he]
    exact h
  | @giveBack i now s r r' a _ _ _ _ _ _ _ =>
    obtain ⟨entries, b, u, he, -⟩ := releaseManaged_eq
      ({ s with returned := a.number :: s.returned }.setRequest i r') a.connection now
    rw [he]
    exact h

end Hical.Client.Managed
