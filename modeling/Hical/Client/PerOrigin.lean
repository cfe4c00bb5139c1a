import Hical.Client.Accounts

namespace Hical.Client.Managed
open Ledger

variable {s s' : Sched} {i o : Nat} {r : Request} {p : ManagedPool} {origin : ManagedOrigin}

/-- What is known of an origin at any time. -/
structure Kept (o : ManagedOrigin) : Prop where
  lined : Lined o
  balanced : Balanced o
  housed : Housed o

theorem Moves.kept (hm : Moves s s') (h : Kept s.toManagedOrigin) : Kept s'.toManagedOrigin := by
  induction hm with
  | refl => exact h
  | tail _ hm ih => exact ⟨hm.lined ih.lined, hm.balanced ih.balanced, hm.housed ih.housed⟩

theorem Moves.counted (hm : Moves s s') (hl : Lined s.toManagedOrigin) (h : Counted n s) :
    Counted n s' := by
  induction hm with
  | refl => exact h
  | tail hms hm ih => exact hm.counted (Moves.lined hms hl) ih

theorem kept_new (key : PoolIdentity) (options : HttpClientOptions) :
    Kept { identity := key, options } where
  lined := by
    refine ⟨Nat.zero_le _, List.nodup_nil, fun i => ?_, List.Pairwise.nil, fun i t h => ?_,
      fun i r h => ?_, fun v h => ?_⟩
    · exact ⟨fun h => absurd h List.not_mem_nil, fun h => absurd rfl h⟩
    · cases h
    · cases h
    · cases h
  balanced := ⟨fun _ => rfl, fun _ => rfl, fun _ => rfl, rfl⟩
  housed := by
    refine ⟨Nat.zero_le _, List.nodup_nil, fun c h => ?_, fun c h => ?_⟩
    · cases h
    · cases h

/-- What is known of a pool at any time. -/
structure PoolKept (p : ManagedPool) : Prop where
  kept : ∀ origin ∈ p.origins, Kept origin
  queued : p.shared.queuedRequests = total (fun o => o.waiters.length) p.origins

theorem onRequest_moves (f : Request → Sched) (h : ∀ r, s.requests[i]? = some r → Moves s (f r)) :
    Moves s (s.onRequest i f) := by
  rw [Sched.onRequest]
  split
  · next r hr => exact h r hr
  · exact .refl

theorem step_moves (h : Lined s.toManagedOrigin) (e : OriginEvent) : Moves s (s.step e) := by
  cases e with
  | resume i aborted cancelled now later =>
    refine onRequest_moves _ fun r hr => ?_
    split
    · next w hp => exact resume_moves h hr hp aborted cancelled now later
    · exact .refl
  | finish i outcome reused now =>
    refine onRequest_moves _ fun r hr => ?_
    split
    · next a hp => exact finish_moves hr hp outcome reused now
    · exact .refl
  | again i cancelled now clock =>
    refine onRequest_moves _ fun r hr => ?_
    split
    · next hp => exact attempt_moves h hr hp cancelled now clock
    · exact .refl
  | unwind i now => exact onRequest_moves _ fun r hr => unwind_moves hr now
  | client c capacity =>
    rw [Sched.step]
    split
    · next e he => exact .single (.setEntry he rfl id)
    · exact .refl
  | notify c now =>
    rw [Sched.step]
    split
    · exact capacityChanged_moves s c now
    · exact .refl
  | drain clock =>
    rw [Sched.step]
    split
    · have hm : Move s { s with scheduled := false } := .schedule false
      exact (Relation.ReflTransGen.single hm).trans (drainManaged_moves (hm.lined h) clock)
    · exact .refl

theorem PoolKept.onOrigin (h : PoolKept p) (o : Nat) (f : Sched → Sched)
    (hf : ∀ origin, p.origins[o]? = some origin → Lined origin →
      Moves ⟨origin, p.shared⟩ (f ⟨origin, p.shared⟩)) : PoolKept (p.onOrigin o f) := by
  rw [ManagedPool.onOrigin]
  split
  · next origin ho =>
    have hk := h.kept origin (List.mem_of_getElem? ho)
    have hm := hf origin ho hk.lined
    refine ⟨?_, ?_⟩
    · intro origin' hmem
      rcases List.mem_or_eq_of_mem_set hmem with hmem | rfl
      · exact h.kept origin' hmem
      · exact hm.kept hk
    · have hle := le_total (f := fun o : ManagedOrigin => o.waiters.length) ho
      have hc : Counted (total (fun o => o.waiters.length) p.origins - origin.waiters.length)
          ⟨origin, p.shared⟩ := by
        have := h.queued
        change p.shared.queuedRequests = origin.waiters.length + _
        omega
      have hc' := hm.counted hk.lined hc
      rw [Counted] at hc'
      have ht := total_set (f := fun o : ManagedOrigin => o.waiters.length) ho
        (f ⟨origin, p.shared⟩).toManagedOrigin
      dsimp only at ht ⊢
      omega
  · exact h

theorem PoolKept.managedOrigin (h : PoolKept p) (key : PoolIdentity) (options : HttpClientOptions) :
    PoolKept (p.managedOrigin key options).1 := by
  rw [ManagedPool.managedOrigin]
  split
  · exact h
  · refine ⟨?_, ?_⟩
    · intro origin hmem
      rcases List.mem_append.1 hmem with hmem | hmem
      · exact h.kept origin hmem
      · rw [List.mem_singleton.1 hmem]
        exact kept_new key options
    · change p.shared.queuedRequests = total _ (p.origins ++ [_])
      rw [total_append, h.queued]
      rfl

theorem PoolKept.sweepOrigin (h : PoolKept p) (isAlive : Nat → Nat → Bool) (now : Nat)
    (key : PoolIdentity) : PoolKept (p.sweepOrigin isAlive now key) := by
  rw [ManagedPool.sweepOrigin]
  split
  · next o _ =>
    have hs := h.onOrigin o (fun s => s.sweepConnections (isAlive o) p.idleTimeout now)
      fun _ _ _ => sweepConnections_moves _ _ _ _
    dsimp only
    split
    · split
      · exact ⟨hs.kept, hs.queued⟩
      · exact hs
    · exact hs
  · exact h

theorem PoolKept.stopOrigin (h : PoolKept p) (clock : Nat → Nat → Nat) (key : PoolIdentity) :
    PoolKept (p.stopOrigin clock key) := by
  rw [ManagedPool.stopOrigin]
  split
  · next o _ => exact h.onOrigin o _ fun _ _ hl => stop_moves hl (clock o)
  · exact h

theorem PoolKept.step (h : PoolKept p) (e : ManagedEvent) : PoolKept (p.step e) := by
  cases e with
  | request host port method options deadline cancelled now clock =>
    change PoolKept (p.request host port method options deadline cancelled now clock)
    rw [ManagedPool.request]
    split
    · exact h
    split
    · exact h
    split
    · exact h
    exact (h.managedOrigin _ options).onOrigin _ _ fun _ _ hl => join_moves hl rfl cancelled now clock
  | origin o e => exact h.onOrigin o (fun s => s.step e) fun _ _ hl => step_moves hl e
  | sweep isAlive now =>
    exact List.foldlRecOn _ _ h fun q hq key _ => hq.sweepOrigin isAlive now key
  | shutdown => exact ⟨h.kept, h.queued⟩
  | stopped clock =>
    change PoolKept (if p.shared.stopping then { p.stopManaged clock with cleaned := true } else p)
    split
    · have hs : PoolKept (p.stopManaged clock) :=
        List.foldlRecOn _ _ h fun q hq key _ => hq.stopOrigin clock key
      exact ⟨hs.kept, hs.queued⟩
    · exact h

theorem PoolKept.run (h : PoolKept p) (events : List ManagedEvent) : PoolKept (p.run events) :=
  List.foldlRecOn _ _ h fun _ hq e _ => hq.step e

def Request.assigned (r : Request) : Option Reservation :=
  match r.phase with
  | .waiting w => w.assigned
  | _ => none

theorem reservation_split (f : Option Reservation → Nat) (hf : f none = 0) (r : Request) :
    f r.reservation = f r.lease + f r.assigned := by
  rw [Request.reservation, Request.lease, Request.assigned]
  cases r.phase with
  | waiting w => exact (Nat.zero_add _).symm.trans (congrArg (· + _) hf.symm)
  | leased a | between | done => exact congrArg (_ + ·) hf.symm

/-- How the connections of an origin are shared. -/
structure Scheduled (o : ManagedOrigin) : Prop where
  /-- `active` counts the leases and the waiters that are assigned. -/
  active : ∀ (c : Nat) e, o.entries[c]? = some e → e.active =
    total (fun r => onConnection c r.lease) o.requests +
      total (fun r => onConnection c r.assigned) o.requests
  underflow : o.underflow = false
  waiters : o.waiters.length ≤ o.options.http2.maxQueuedRequestsPerOrigin.toNat
  connections : o.connections.length ≤ o.options.http2.maxConnectionsPerOrigin.toNat
  /-- A reservation is with a waiter, or became one lease, or was given back once. -/
  once : ∀ k < o.reserved, total (fun r => numbered k r.assigned) o.requests + o.leases.count k +
    o.freed.count k = 1
  /-- A lease is held, or was given back once. -/
  leased : ∀ k, total (fun r => numbered k r.lease) o.requests + o.returned.count k =
    o.leases.count k
  kept : ∀ (c : Nat) e, o.entries[c]? = some e → 0 < e.active → c ∈ o.connections
  /-- Whoever got a connection came before all that still waited. -/
  inOrder : ∀ v ∈ o.served, match v.ticket with
    | some t => ∀ t' ∈ v.left, t < t'
    | none => v.left = []

theorem Kept.scheduled (h : Kept origin) : Scheduled origin where
  active c e he := by
    have ha : activeOf origin.entries c = e.active := by
      rw [activeOf, he]
      rfl
    rw [← ha, h.balanced.active, ← total_add]
    exact total_congr fun r _ => reservation_split _ rfl r
  underflow := h.balanced.underflow
  waiters := h.lined.bound
  connections := h.housed.bound
  once k hk := by
    have ho := h.balanced.once k
    have hl := h.balanced.leased k
    rw [if_pos hk, total_congr fun r _ => reservation_split (numbered k) rfl r, total_add] at ho
    omega
  leased k := (h.balanced.leased k).symm
  kept c e he hpos := by
    refine h.housed.kept c ?_
    rw [activeOf, he]
    exact hpos
  inOrder := h.lined.served

theorem managed_scheduling (idleTimeout : Nat) (events : List ManagedEvent) :
    let p := ManagedPool.run { idleTimeout } events
    p.shared.queuedRequests = total (fun o => o.waiters.length) p.origins ∧
      ∀ origin ∈ p.origins, Scheduled origin := by
  have h : PoolKept { idleTimeout } := by
    refine ⟨fun origin hmem => ?_, rfl⟩
    cases hmem
  have hr := h.run events
  exact ⟨hr.queued, fun origin hmem => (hr.kept origin hmem).scheduled⟩

end Hical.Client.Managed

namespace Hical.Client.Managed
open Ledger

variable {s s' : Sched} {i o : Nat} {r : Request} {p : ManagedPool} {origin : ManagedOrigin}

def ManagedOrigin.isOpen (o : ManagedOrigin) (c : Nat) : Bool :=
  match o.entries[c]? with
  | some e => e.capacity.connected || e.capacity.connecting
  | none => false

def openClients (key : PoolIdentity) (o : ManagedOrigin) : Nat :=
  if o.identity = key then o.connections.countP o.isOpen else 0

/-- `close` was called on every client of an origin. -/
def Shut (o : ManagedOrigin) : Prop :=
  ∀ c ∈ o.connections, ∃ e, o.entries[c]? = some e ∧ e.closed = true

/-- The limits of the pool hold for each identity. -/
structure PerOrigin (p : ManagedPool) : Prop where
  limit : ∀ key : PoolIdentity,
    total (openClients key) p.origins ≤ key.http2.maxConnectionsPerOrigin.toNat
  closed : p.cleaned = true → ∀ origin ∈ p.origins, Shut origin
  /-- An origin that a request still uses is in the map. -/
  mapped : ∀ (o : Nat) origin, p.origins[o]? = some origin →
    (∃ r ∈ origin.requests, r.phase ≠ .done) → p.managed.lookup origin.identity = some o

/-- A sweep does not erase the origin of a key while a request uses it. -/
def SparesOrigin (isAlive : Nat → Nat → Bool) (now : Nat) (p : ManagedPool) (key : PoolIdentity) :
    Prop :=
  ∀ (o : Nat) origin, p.managed.lookup key = some o → p.origins[o]? = some origin →
    (Sched.sweepConnections ⟨origin, p.shared⟩ (isAlive o) p.idleTimeout now).connections = [] →
    origin.waiters = [] → ∀ r ∈ origin.requests, r.phase = .done

def Spares (p : ManagedPool) : ManagedEvent → Prop
  | .sweep isAlive now => ∀ key, SparesOrigin isAlive now p key
  | _ => True

/-- A run in which every event spares the origins that are in use. -/
def Sparing : ManagedPool → List ManagedEvent → Prop
  | _, [] => True
  | p, e :: events => Spares p e ∧ Sparing (p.step e) events

/-- An origin that nobody uses any more. -/
structure Dead (o : ManagedOrigin) : Prop where
  connections : o.connections = []
  waiters : o.waiters = []
  requests : ∀ r ∈ o.requests, r.phase = .done

theorem onRequest_dead (h : Dead s.toManagedOrigin) (f : Request → Sched)
    (hf : ∀ r : Request, r.phase = .done → f r = s) : s.onRequest i f = s := by
  rw [Sched.onRequest]
  split
  · next r hr => exact hf r (h.requests r (List.mem_of_getElem? hr))
  · rfl

theorem Dead.step (h : Dead s.toManagedOrigin) (e : OriginEvent) :
    Dead (s.step e).toManagedOrigin := by
  cases e with
  | resume i aborted cancelled now later | finish i outcome reused now
  | again i cancelled now clock =>
    rw [Sched.step, onRequest_dead h _ fun r hr => by rw [hr]]
    exact h
  | unwind i now =>
    rw [Sched.step, onRequest_dead h _ fun r hr => by rw [Sched.unwind, hr]]
    exact h
  | client c capacity =>
    rw [Sched.step]
    split
    · exact ⟨h.connections, h.waiters, h.requests⟩
    · exact h
  | notify c now =>
    rw [Sched.step, h.connections]
    exact h
  | drain clock =>
    rw [Sched.step]
    split
    · have hw : ({ s with scheduled := false } : Sched).waiters = [] := h.waiters
      rw [drainManaged_nil hw]
      exact ⟨h.connections, h.waiters, h.requests⟩
    · exact h

/-- Where the pool stops no client is made, and those that were closed stay closed. -/
theorem Move.shut (hm : Move s s') (hs : s.stopping = true) (h : Shut s.toManagedOrigin) :
    Shut s'.toManagedOrigin := by
  cases hm with
  | settle | leave | enqueue | claim | schedule | join => exact h
  | @grant i t rest c s r r' _ _ _ _ _ hlt _ _ _ | @direct i c s r r' _ _ _ _ _ hlt _ _ _ =>
    obtain ⟨entries, he, -, -, hc⟩ := reserve_eq s hlt
    rw [he]
    intro d hd
    obtain ⟨e, hde, hcl⟩ := h d hd
    obtain ⟨e', he', heq⟩ := hc d e hde
    exact ⟨e', he', heq.trans hcl⟩
  | @free i now s r r' a _ _ _ _ _ _ _ =>
    obtain ⟨entries, b, u, he, -, -, -, hc⟩ := releaseManaged_eq
      ({ s with freed := a.number :: s.freed }.setRequest i r') a.connection now
    rw [he]
    intro d hd
    obtain ⟨e, hde, hcl⟩ := h d hd
    obtain ⟨e', he', himp⟩ := hc d e hde
    exact ⟨e', he', himp hcl⟩
  | @giveBack i now s r r' a _ _ _ _ _ _ _ =>
    obtain ⟨entries, b, u, he, -, -, -, hc⟩ := releaseManaged_eq
      ({ s with returned := a.number :: s.returned }.setRequest i r') a.connection now
    rw [he]
    intro d hd
    obtain ⟨e, hde, hcl⟩ := h d hd
    obtain ⟨e', he', himp⟩ := hc d e hde
    exact ⟨e', he', himp hcl⟩
  | clients entries _ _ hc =>
    intro d hd
    obtain ⟨e, hde, hcl⟩ := h d hd
    exact hc d e hde hcl
  | erase connections hsub _ => exact fun d hd => h d (hsub.subset hd)
  | make now hn _ =>
    rw [hs] at hn
    cases hn

theorem Moves.shut (hm : Moves s s') (hs : s.stopping = true) (h : Shut s.toManagedOrigin) :
    Shut s'.toManagedOrigin := by
  induction hm with
  | refl => exact h
  | tail hms hm ih => exact hm.shut ((Moves.same hms).1.trans hs) ih

theorem stop_shut (h : Kept s.toManagedOrigin) (hs : s.stopping = true) (clock : Nat → Nat) :
    Shut (s.stop clock).toManagedOrigin := by
  have hm := Move.closing s fun c => s.connections.contains c
  refine (drainManaged_moves (hm.lined h.lined) clock).shut hs ?_
  intro c hc
  have hlt := h.housed.made c hc
  refine ⟨Sched.closeClient s.entries[c], ?_, rfl⟩
  change (closing s.entries _)[c]? = _
  rw [closing, List.getElem?_mapIdx, List.getElem?_eq_getElem hlt]
  dsimp only [Option.map_some]
  rw [if_pos (List.contains_iff_mem.2 hc)]

/-- The map against the origins: those that are not in it are not used any more. -/
structure Mapped (p : ManagedPool) : Prop where
  keys : ∀ key o, p.managed.lookup key = some o →
    ∃ origin, p.origins[o]? = some origin ∧ origin.identity = key
  dead : ∀ (o : Nat) origin, p.origins[o]? = some origin →
    p.managed.lookup origin.identity ≠ some o → Dead origin
  limits : ∀ origin ∈ p.origins, origin.identity.http2 = origin.options.http2
  shut : p.cleaned = true → p.shared.stopping = true ∧ ∀ origin ∈ p.origins, Shut origin

theorem onOrigin_eq (ho : p.origins[o]? = some origin) (f : Sched → Sched) :
    p.onOrigin o f = { p with
      shared := (f ⟨origin, p.shared⟩).toShared
      origins := p.origins.set o (f ⟨origin, p.shared⟩).toManagedOrigin } := by
  rw [ManagedPool.onOrigin, ho]

theorem Mapped.onOrigin (h : Mapped p) (o : Nat) (f : Sched → Sched)
    (hm : ∀ origin, p.origins[o]? = some origin →
      Moves ⟨origin, p.shared⟩ (f ⟨origin, p.shared⟩))
    (hd : ∀ origin, p.origins[o]? = some origin → p.managed.lookup origin.identity ≠ some o →
      Dead origin → Dead (f ⟨origin, p.shared⟩).toManagedOrigin) : Mapped (p.onOrigin o f) := by
  cases ho : p.origins[o]? with
  | none =>
    rw [ManagedPool.onOrigin, ho]
    exact h
  | some origin =>
    have hlt := (List.getElem?_eq_some_iff.1 ho).1
    have hm := hm origin ho
    obtain ⟨hstop, hid, hopt⟩ := hm.same
    have hat : (p.origins.set o (f ⟨origin, p.shared⟩).toManagedOrigin)[o]? =
        some (f ⟨origin, p.shared⟩).toManagedOrigin := List.getElem?_set_self hlt
    rw [onOrigin_eq ho]
    refine ⟨?_, ?_, ?_, ?_⟩
    · intro key o' hl
      obtain ⟨origin', ho', hk⟩ := h.keys key o' hl
      by_cases he : o' = o
      · subst he
        rw [ho] at ho'
        cases ho'
        exact ⟨_, hat, hid.trans hk⟩
      · exact ⟨origin', (List.getElem?_set_ne (Ne.symm he)).trans ho', hk⟩
    · intro o' origin' ho' hn
      by_cases he : o' = o
      · subst he
        have ho' := hat.symm.trans ho'
        cases ho'
        have hn : p.managed.lookup origin.identity ≠ some o' := hid ▸ hn
        exact hd origin ho hn (h.dead o' origin ho hn)
      · have ho' : p.origins[o']? = some origin' := (List.getElem?_set_ne (Ne.symm he)).symm.trans ho'
        exact h.dead o' origin' ho' hn
    · intro origin' hmem
      rcases List.mem_or_eq_of_mem_set hmem with hmem | rfl
      · exact h.limits origin' hmem
      · rw [hid, hopt]
        exact h.limits origin (List.mem_of_getElem? ho)
    · intro hc
      obtain ⟨hs, hshut⟩ := h.shut hc
      refine ⟨hstop.trans hs, ?_⟩
      intro origin' hmem
      rcases List.mem_or_eq_of_mem_set hmem with hmem | rfl
      · exact hshut origin' hmem
      · exact hm.shut hs (hshut origin (List.mem_of_getElem? ho))

theorem Mapped.managedOrigin (h : Mapped p) (key : PoolIdentity) (options : HttpClientOptions)
    (hk : key.http2 = options.http2) :
    Mapped (p.managedOrigin key options).1 ∧
      (p.managedOrigin key options).1.managed.lookup key = some (p.managedOrigin key options).2 := by
  rw [ManagedPool.managedOrigin]
  split
  · next o hl => exact ⟨h, hl⟩
  next hl =>
  refine ⟨⟨?_, ?_, ?_, ?_⟩, AList.lookup_insert _⟩
  · intro key' o' hl'
    by_cases he : key' = key
    · rw [he, AList.lookup_insert] at hl'
      cases hl'
      exact ⟨_, List.getElem?_concat_length, he.symm⟩
    · rw [AList.lookup_insert_ne he] at hl'
      obtain ⟨origin, ho, hid⟩ := h.keys key' o' hl'
      exact ⟨origin, (List.getElem?_append_left (List.getElem?_eq_some_iff.1 ho).1).trans ho, hid⟩
  · intro o' origin ho hn
    dsimp only at ho hn
    rw [List.getElem?_append] at ho
    split at ho
    · refine h.dead o' origin ho ?_
      by_cases he : origin.identity = key
      · rw [he, hl]
        exact fun hc => by cases hc
      · rw [AList.lookup_insert_ne he] at hn
        exact hn
    · next hge =>
      have hz : o' - p.origins.length < 1 := (List.getElem?_eq_some_iff.1 ho).1
      have he : o' = p.origins.length := by omega
      rw [List.mem_singleton.1 (List.mem_of_getElem? ho), he] at hn
      exact absurd (AList.lookup_insert _) hn
  · intro origin hmem
    rcases List.mem_append.1 hmem with hmem | hmem
    · exact h.limits origin hmem
    · rw [List.mem_singleton.1 hmem]
      exact hk
  · intro hc
    obtain ⟨hs, hshut⟩ := h.shut hc
    refine ⟨hs, fun origin hmem => ?_⟩
    rcases List.mem_append.1 hmem with hmem | hmem
    · exact hshut origin hmem
    · rw [List.mem_singleton.1 hmem]
      intro c hc
      cases hc

theorem sweepOrigin_eq (ho : p.origins[o]? = some origin) (hl : p.managed.lookup key = some o)
    (isAlive : Nat → Nat → Bool) (now : Nat) :
    let swept := Sched.sweepConnections ⟨origin, p.shared⟩ (isAlive o) p.idleTimeout now
    p.sweepOrigin isAlive now key = { p with
      origins := p.origins.set o swept.toManagedOrigin
      managed := if swept.connections.isEmpty && swept.waiters.isEmpty then p.managed.erase key
        else p.managed } := by
  have hlt := (List.getElem?_eq_some_iff.1 ho).1
  rw [ManagedPool.sweepOrigin, hl]
  dsimp only
  rw [onOrigin_eq ho]
  dsimp only
  rw [List.getElem?_set_self hlt]
  dsimp only
  split
  · rfl
  · rfl

theorem Mapped.sweepOrigin (h : Mapped p) (hs : SparesOrigin isAlive now p key) :
    Mapped (p.sweepOrigin isAlive now key) := by
  cases hl : p.managed.lookup key with
  | none =>
    rw [ManagedPool.sweepOrigin, hl]
    exact h
  | some o =>
    obtain ⟨origin, ho, hid⟩ := h.keys key o hl
    have hlt := (List.getElem?_eq_some_iff.1 ho).1
    have hw := h.onOrigin o (fun s => s.sweepConnections (isAlive o) p.idleTimeout now)
      (fun _ _ => sweepConnections_moves _ _ _ _) fun origin _ _ hd => by
        refine ⟨?_, hd.waiters, hd.requests⟩
        change List.filter _ origin.connections = []
        rw [hd.connections]
        rfl
    rw [onOrigin_eq ho] at hw
    rw [sweepOrigin_eq ho hl]
    split
    · next he =>
      rw [Bool.and_eq_true_iff, List.isEmpty_iff, List.isEmpty_iff] at he
      refine ⟨?_, ?_, hw.limits, hw.shut⟩
      · intro key' o' hl'
        dsimp only at hl'
        by_cases hk : key' = key
        · rw [hk, AList.lookup_erase] at hl'
          cases hl'
        · rw [AList.lookup_erase_ne hk] at hl'
          exact hw.keys key' o' hl'
      · intro o' origin' ho' hn
        dsimp only at ho' hn
        by_cases hk : origin'.identity = key
        · by_cases heq : o' = o
          · rw [heq, List.getElem?_set_self hlt] at ho'
            cases ho'
            exact ⟨he.1, he.2, hs o origin hl ho he.1 he.2⟩
          · refine hw.dead o' origin' ho' ?_
            change p.managed.lookup origin'.identity ≠ some o'
            rw [hk, hl]
            exact fun hc => heq (Option.some.inj hc).symm
        · rw [AList.lookup_erase_ne hk] at hn
          exact hw.dead o' origin' ho' hn
    · exact hw

theorem SparesOrigin.sweepOrigin (hs : SparesOrigin isAlive now p key') (h : Mapped p)
    (hne : key' ≠ key) : SparesOrigin isAlive now (p.sweepOrigin isAlive now key) key' := by
  cases hl : p.managed.lookup key with
  | none =>
    rw [ManagedPool.sweepOrigin, hl]
    exact hs
  | some o =>
    obtain ⟨origin, ho, hid⟩ := h.keys key o hl
    rw [sweepOrigin_eq ho hl]
    intro o' origin' hl' ho'
    have hl' : p.managed.lookup key' = some o' := by
      dsimp only at hl'
      split at hl'
      · rw [AList.lookup_erase_ne hne] at hl'
        exact hl'
      · exact hl'
    have hoo : o ≠ o' := by
      rintro rfl
      obtain ⟨origin₁, ho₁, hid₁⟩ := h.keys key' o hl'
      rw [ho] at ho₁
      cases ho₁
      exact hne (hid₁.symm.trans hid)
    have ho' : p.origins[o']? = some origin' := (List.getElem?_set_ne hoo).symm.trans ho'
    exact hs o' origin' hl' ho'

theorem Mapped.sweepManaged (h : Mapped p) (hs : ∀ key, SparesOrigin isAlive now p key) :
    Mapped (p.sweepManaged isAlive now) := by
  have hfold : ∀ (keys : List PoolIdentity) (q : ManagedPool), keys.Nodup → Mapped q →
      (∀ key ∈ keys, SparesOrigin isAlive now q key) →
      Mapped (keys.foldl (ManagedPool.sweepOrigin isAlive now) q) := by
    intro keys
    induction keys with
    | nil => exact fun q _ hq _ => hq
    | cons key keys ih =>
      intro q hnd hq hs
      rw [List.nodup_cons] at hnd
      refine ih _ hnd.2 (hq.sweepOrigin (hs key List.mem_cons_self)) fun key' hk' => ?_
      exact (hs key' (.tail _ hk')).sweepOrigin hq fun he => hnd.1 (he ▸ hk')
  exact hfold _ p (AList.keys_nodup p.managed) h fun key _ => hs key

/-- What `stopManaged` has done once its loop is past some of the keys. -/
structure Stopping (p q : ManagedPool) (keys : List PoolIdentity) : Prop where
  mapped : Mapped q
  kept : PoolKept q
  same : q.managed = p.managed
  stopping : q.shared.stopping = true
  shut : ∀ key ∈ keys, ∀ (o : Nat) origin, p.managed.lookup key = some o →
    q.origins[o]? = some origin → Shut origin

theorem Stopping.stopOrigin {q : ManagedPool} (h : Stopping p q keys) (clock : Nat → Nat → Nat)
    (key : PoolIdentity) : Stopping p (q.stopOrigin clock key) (key :: keys) := by
  have hk := h.kept.stopOrigin clock key
  cases hl : q.managed.lookup key with
  | none =>
    rw [ManagedPool.stopOrigin, hl]
    refine ⟨h.mapped, h.kept, h.same, h.stopping, ?_⟩
    intro key' hmem o origin hl' ho
    cases hmem with
    | head =>
      rw [← h.same, hl] at hl'
      cases hl'
    | tail _ hmem => exact h.shut key' hmem o origin hl' ho
  | some o =>
    obtain ⟨origin, ho, hid⟩ := h.mapped.keys key o hl
    have hlt := (List.getElem?_eq_some_iff.1 ho).1
    have hkept := h.kept.kept origin (List.mem_of_getElem? ho)
    have hm := stop_moves (s := ⟨origin, q.shared⟩) hkept.lined (clock o)
    have hshut := stop_shut (s := ⟨origin, q.shared⟩) hkept h.stopping (clock o)
    have hmapped := h.mapped.onOrigin o (fun s => s.stop (clock o))
      (fun origin' ho' => stop_moves (h.kept.kept origin' (List.mem_of_getElem? ho')).lined (clock o))
      fun origin' ho' hn _ => by
        rw [ho] at ho'
        cases ho'
        rw [hid] at hn
        exact absurd hl hn
    rw [ManagedPool.stopOrigin, hl] at hk ⊢
    dsimp only at hk ⊢
    rw [onOrigin_eq ho] at hk hmapped ⊢
    refine ⟨hmapped, hk, h.same, hm.same.1.trans h.stopping, ?_⟩
    intro key' hmem o' origin' hl' ho'
    dsimp only at ho'
    by_cases he : o' = o
    · rw [he, List.getElem?_set_self hlt] at ho'
      cases ho'
      exact hshut
    · rw [List.getElem?_set_ne (Ne.symm he)] at ho'
      cases hmem with
      | head =>
        rw [← h.same, hl] at hl'
        exact absurd (Option.some.inj hl').symm he
      | tail _ hmem => exact h.shut key' hmem o' origin' hl' ho'

theorem Stopping.fold {q : ManagedPool} (h : Stopping p q done) (clock : Nat → Nat → Nat)
    (keys : List PoolIdentity) :
    Stopping p (keys.foldl (ManagedPool.stopOrigin clock) q) (keys.reverse ++ done) := by
  induction keys generalizing q done with
  | nil => exact h
  | cons key keys ih =>
    rw [List.reverse_cons, List.append_assoc]
    exact ih (h.stopOrigin clock key)

theorem Dead.shut (h : Dead origin) : Shut origin := by
  intro c hc
  rw [h.connections] at hc
  cases hc

theorem Mapped.stopManaged (h : Mapped p) (hk : PoolKept p) (hs : p.shared.stopping = true)
    (clock : Nat → Nat → Nat) : Mapped { p.stopManaged clock with cleaned := true } := by
  have hstart : Stopping p p [] := ⟨h, hk, rfl, hs, fun key hmem => absurd hmem List.not_mem_nil⟩
  have hend := hstart.fold clock p.managed.keys
  refine ⟨hend.mapped.keys, hend.mapped.dead, hend.mapped.limits, fun _ => ⟨hend.stopping, ?_⟩⟩
  intro origin hmem
  obtain ⟨o, ho⟩ := List.getElem?_of_mem hmem
  by_cases hl : (p.stopManaged clock).managed.lookup origin.identity = some o
  · have hl : p.managed.lookup origin.identity = some o := hend.same ▸ hl
    have hkey : origin.identity ∈ p.managed.keys := by
      rw [← AList.mem_keys, ← AList.lookup_isSome, hl]
      rfl
    refine hend.shut origin.identity ?_ o origin hl ho
    rw [List.append_nil, List.mem_reverse]
    exact hkey
  · exact (hend.mapped.dead o origin ho hl).shut

theorem Mapped.step (h : Mapped p) (hk : PoolKept p) (e : ManagedEvent) (hs : Spares p e) :
    Mapped (p.step e) := by
  cases e with
  | request host port method options deadline cancelled now clock =>
    change Mapped (p.request host port method options deadline cancelled now clock)
    rw [ManagedPool.request]
    split
    · exact h
    next hmode =>
    split
    · exact h
    split
    · exact h
    have hhttp2 : (PoolIdentity.of host port options).http2 = options.http2 := if_neg hmode
    obtain ⟨hm, hl⟩ := h.managedOrigin (.of host port options) options hhttp2
    have hk₁ := hk.managedOrigin (.of host port options) options
    generalize p.managedOrigin (.of host port options) options = found at *
    refine hm.onOrigin found.2 _ ?_ ?_
    · intro origin ho
      exact join_moves (hk₁.kept origin (List.mem_of_getElem? ho)).lined rfl cancelled now clock
    · intro origin ho hn _
      obtain ⟨origin₁, ho₁, hid⟩ := hm.keys _ _ hl
      rw [ho] at ho₁
      cases ho₁
      rw [hid] at hn
      exact absurd hl hn
  | origin o e =>
    refine h.onOrigin o (fun s => s.step e) ?_ ?_
    · exact fun origin ho => step_moves (hk.kept origin (List.mem_of_getElem? ho)).lined e
    · exact fun origin _ _ hd => Dead.step (s := ⟨origin, p.shared⟩) hd e
  | sweep isAlive now => exact h.sweepManaged hs
  | shutdown => exact ⟨h.keys, h.dead, h.limits, fun hc => ⟨rfl, (h.shut hc).2⟩⟩
  | stopped clock =>
    change Mapped (if p.shared.stopping then { p.stopManaged clock with cleaned := true } else p)
    split
    · next hstop => exact h.stopManaged hk hstop clock
    · exact h

theorem openClients_le (key : PoolIdentity) (o : ManagedOrigin) :
    openClients key o ≤ o.connections.length := by
  rw [openClients]
  split
  · exact List.countP_le_length
  · exact Nat.zero_le _

theorem openClients_dead (key : PoolIdentity) (h : Dead origin) : openClients key origin = 0 := by
  have := openClients_le key origin
  rw [h.connections] at this
  exact Nat.le_zero.1 this

/-- The origins of an identity, of which at most one is in the map. -/
theorem Mapped.limit (h : Mapped p) (hk : PoolKept p) (key : PoolIdentity) :
    total (openClients key) p.origins ≤ key.http2.maxConnectionsPerOrigin.toNat := by
  have hother : ∀ (o : Nat) origin, p.origins[o]? = some origin → p.managed.lookup key ≠ some o →
      openClients key origin = 0 := by
    intro o origin ho hn
    by_cases hid : origin.identity = key
    · exact openClients_dead key (h.dead o origin ho (hid ▸ hn))
    · exact if_neg hid
  cases hl : p.managed.lookup key with
  | none =>
    have hz : total (openClients key) p.origins = 0 := by
      refine total_eq_zero fun origin hmem => ?_
      obtain ⟨o, ho⟩ := List.getElem?_of_mem hmem
      refine hother o origin ho ?_
      rw [hl]
      exact fun hc => by cases hc
    rw [hz]
    exact Nat.zero_le _
  | some o =>
    obtain ⟨origin, ho, hid⟩ := h.keys key o hl
    have honly : total (openClients key) p.origins = openClients key origin := by
      refine total_only ho fun o' origin' ho' hne => hother o' origin' ho' ?_
      rw [hl]
      exact fun hc => hne (Option.some.inj hc).symm
    have hmem := List.mem_of_getElem? ho
    rw [honly, ← hid, h.limits origin hmem]
    exact Nat.le_trans (openClients_le _ origin) (hk.kept origin hmem).housed.bound

theorem Mapped.perOrigin (h : Mapped p) (hk : PoolKept p) : PerOrigin p where
  limit := h.limit hk
  closed hc := (h.shut hc).2
  mapped o origin ho hr := by
    by_contra hn
    obtain ⟨r, hmem, hphase⟩ := hr
    exact hphase ((h.dead o origin ho hn).requests r hmem)

theorem Mapped.run (events : List ManagedEvent) (h : Mapped p) (hk : PoolKept p)
    (hs : Sparing p events) : Mapped (p.run events) := by
  induction events generalizing p with
  | nil => exact h
  | cons e events ih => exact ih (h.step hk e hs.1) (hk.step e) hs.2

/-- Where no sweep erases an origin that a request still uses, the limits are per identity. -/
theorem limits_per_origin (idleTimeout : Nat) (events : List ManagedEvent)
    (hs : Sparing { idleTimeout } events) : PerOrigin (ManagedPool.run { idleTimeout } events) := by
  have hk : PoolKept { idleTimeout } := by
    refine ⟨fun origin hmem => ?_, rfl⟩
    cases hmem
  have hm : Mapped { idleTimeout } := by
    refine ⟨fun key o hl => ?_, fun o origin ho => ?_, fun origin hmem => ?_, fun hc => ?_⟩
    · cases hl
    · cases ho
    · cases hmem
    · cases hc
  exact (hm.run events hk hs).perOrigin (hk.run events)

def oneConnection : HttpClientOptions :=
  { tlsContext := some 0, protocolMode := .hHttp2Only, http2 := { maxConnectionsPerOrigin := 1 } }

def connectRefused : HttpClientResult :=
  { error := { code := .hConnectionRefused, message := "connection refused" }
    requestDisposition := .hNotSent }

/-- A sweep where the only request is done. -/
theorem limits_per_origin_swept :
    PerOrigin (ManagedPool.run { idleTimeout := 60000 }
      [.request [104] 443 .hGet oneConnection 1000 false 0 fun _ => 0,
        .origin 0 (.finish 0 (.ok {}) false 1), .sweep (fun _ _ => false) 2,
        .request [104] 443 .hGet oneConnection 1000 false 3 fun _ => 3]) := by
  refine limits_per_origin 60000 _ ⟨trivial, trivial, ?_, trivial, trivial⟩
  have hdone : ∀ origin ∈ (ManagedPool.run { idleTimeout := 60000 }
      [.request [104] 443 .hGet oneConnection 1000 false 0 fun _ => 0,
        .origin 0 (.finish 0 (.ok {}) false 1)]).origins,
      ∀ r ∈ origin.requests, r.phase = .done := by decide
  exact fun key o origin _ ho _ _ => hdone origin (List.mem_of_getElem? ho)

/-- A request fails to connect, and a sweep erases its origin before its second attempt; another
request then has an origin of its own. -/
def twoOrigins : List ManagedEvent :=
  [.request [104] 443 .hGet oneConnection 1000 false 0 fun _ => 0,
    .origin 0 (.finish 0 (.ok connectRefused) false 1),
    .sweep (fun _ _ => false) 2,
    .request [104] 443 .hGet oneConnection 1000 false 3 fun _ => 3,
    .origin 1 (.client 0 { connecting := true }),
    .origin 0 (.again 0 false 4 fun _ => 4),
    .origin 0 (.client 1 { connecting := true })]

/-- Two clients connect where one is allowed, and the pool closes one of them. -/
theorem limit_exceeded :
    total (openClients (.of [104] 443 oneConnection))
        (ManagedPool.run { idleTimeout := 60000 } twoOrigins).origins = 2 ∧
      (PoolIdentity.of [104] 443 oneConnection).http2.maxConnectionsPerOrigin = 1 ∧
      ¬ PerOrigin (ManagedPool.run { idleTimeout := 60000 } twoOrigins) ∧
      ¬ (∀ origin ∈ (ManagedPool.run { idleTimeout := 60000 }
        (twoOrigins ++ [.shutdown, .stopped fun _ _ => 5])).origins, Shut origin) := by
  have htwo : total (openClients (.of [104] 443 oneConnection))
      (ManagedPool.run { idleTimeout := 60000 } twoOrigins).origins = 2 := by decide
  refine ⟨htwo, rfl, fun h => ?_, fun h => ?_⟩
  · have hle := h.limit (.of [104] 443 oneConnection)
    rw [htwo] at hle
    exact absurd hle (by decide)
  · have hleft : ∃ origin ∈ (ManagedPool.run { idleTimeout := 60000 }
        (twoOrigins ++ [.shutdown, .stopped fun _ _ => 5])).origins,
        ∃ c ∈ origin.connections, origin.entries[c]?.all (·.closed) = false := by decide
    obtain ⟨origin, hmem, c, hc, hopen⟩ := hleft
    obtain ⟨e, he, hclosed⟩ := h origin hmem c hc
    rw [he] at hopen
    rw [Option.all_some, hclosed] at hopen
    cases hopen

end Hical.Client.Managed
