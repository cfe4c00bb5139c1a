import Hical.Client.IdlePool
import Hical.Lib.Runs

namespace Hical.Client.IdlePool
open Hical.Http2

def isOut (i : Nat) : List Note → Bool
  | [] => false
  | .out j :: notes => j == i || isOut i notes
  | .back j :: notes => j != i && isOut i notes
  | .cleared :: _ => false

/-- The pool has a ticket for the client. -/
def Tracked (p : IdlePool) (i : Nat) : Prop :=
  ∃ a t, p.checkedOut.lookup a = some t ∧ t.instance = i

structure Inv (limit : Nat) (p : IdlePool) : Prop where
  config : p.maxIdlePerBucket = limit
  idle : ∀ key, ∀ conn ∈ p.queue key,
    ∃ c, p.clients[conn.client]? = some c ∧ c.live = true ∧ c.identity = key
  once : ∀ key, ((p.queue key).map (·.client)).Nodup
  bound : ∀ key, (p.queue key).length ≤ limit
  tracked : ∀ a t, p.checkedOut.lookup a = some t →
    ∃ c, p.clients[t.instance]? = some c ∧ c.address = a ∧ c.identity = t.identity
  apart : ∀ a t, p.checkedOut.lookup a = some t →
    ∀ key, ∀ conn ∈ p.queue key, conn.client ≠ t.instance
  addresses : ∀ (i j : Nat) (c d : HttpClient), p.clients[i]? = some c → p.clients[j]? = some d →
    c.live = true → d.live = true → c.address = d.address → i = j
  out : ∀ (i : Nat) (c : HttpClient), p.clients[i]? = some c → c.live = true →
    (isOut i p.notes = true ↔ p.Tracked i)
  known : ∀ i, isOut i p.notes = true → i < p.clients.length
  lent : ∀ l ∈ p.lent, (∃ c, p.clients[l.client]? = some c ∧ c.identity = l.identity) ∧
    (l.reused = true → l.pending = false)

@[simp] theorem queue_setQueue (p : IdlePool) (key key' : PoolIdentity) (queue : List IdleConn) :
    (p.setQueue key queue).queue key' = if key' = key then queue else p.queue key' := by
  unfold IdlePool.queue setQueue
  by_cases h : key' = key
  · subst h
    simp
  · rw [if_neg h]
    dsimp only
    rw [AList.lookup_insert_ne h]

@[simp] theorem queue_eraseQueue (p : IdlePool) (key key' : PoolIdentity) :
    (p.eraseQueue key).queue key' = if key' = key then [] else p.queue key' := by
  unfold IdlePool.queue eraseQueue
  by_cases h : key' = key
  · subst h
    simp
  · rw [if_neg h]
    dsimp only
    rw [AList.lookup_erase_ne h]

@[simp] theorem queue_track (p : IdlePool) (i : Nat) (key key' : PoolIdentity) (managed : Bool) :
    (p.track i key managed).queue key' = p.queue key' := rfl

@[simp] theorem queue_lend (p : IdlePool) (i : Nat) (key key' : PoolIdentity)
    (reused pending : Bool) : (p.lend i key reused pending).queue key' = p.queue key' := rfl

theorem mem_keys_of_queue (h : conn ∈ IdlePool.queue p key) : key ∈ p.buckets.keys := by
  unfold IdlePool.queue at h
  rw [← AList.mem_keys, ← AList.lookup_isSome]
  cases hq : p.buckets.lookup key with
  | none => simp [hq] at h
  | some q => rfl

theorem Inv.start (idleTimeout limit : Nat) :
    Inv limit { idleTimeout, maxIdlePerBucket := limit } := by
  refine ⟨rfl, ?_, ?_, ?_, ?_, ?_, ?_, ?_, ?_, ?_⟩ <;> simp [IdlePool.queue, isOut]

theorem Inv.shrink (h : Inv limit p) (p' : IdlePool)
    (he : p' = { p with buckets := p'.buckets })
    (hq : ∀ key, (p'.queue key).Sublist (p.queue key)) : Inv limit p' := by
  have hm : ∀ key conn, conn ∈ p'.queue key → conn ∈ p.queue key :=
    fun key conn hc => (hq key).subset hc
  obtain ⟨hl, hi, ho, hb, ht, ha, hd, hout, hk, hlent⟩ := h
  rw [he] at hm hq ⊢
  exact ⟨hl, fun key conn hc => hi key conn (hm key conn hc),
    fun key => (ho key).sublist ((hq key).map _),
    fun key => Nat.le_trans (hq key).length_le (hb key),
    ht, fun a t hat key conn hc => ha a t hat key conn (hm key conn hc), hd, hout, hk, hlent⟩

theorem Inv.setQueue (h : Inv limit p) (hq : rest.Sublist (p.queue key)) :
    Inv limit (p.setQueue key rest) := by
  refine h.shrink _ rfl fun key' => ?_
  rw [queue_setQueue]
  split
  next he => rw [he]; exact hq
  · exact List.Sublist.refl _

theorem Inv.eraseQueue (h : Inv limit p) (key : PoolIdentity) : Inv limit (p.eraseQueue key) := by
  refine h.shrink _ rfl fun key' => ?_
  rw [queue_eraseQueue]
  split
  · exact List.nil_sublist _
  · exact List.Sublist.refl _

theorem address_eq (h : p.clients[i]? = some c) : IdlePool.address p i = c.address := by
  simp [IdlePool.address, h]

theorem Inv.track (h : Inv limit p) (hc : p.clients[i]? = some c) (hl : c.live = true)
    (hk : c.identity = key) (hn : ∀ key', ∀ conn ∈ p.queue key', conn.client ≠ i)
    (managed : Bool) : Inv limit (p.track i key managed) := by
  have ha := address_eq hc
  -- The ticket of any other client that lives is at another address and stays.
  have hother : ∀ j d, p.clients[j]? = some d → d.live = true → j ≠ i → d.address ≠ c.address :=
    fun j d hd hdl hne he => hne (h.addresses j i d c hd hc hdl hl he)
  have hlook : ∀ a t, (p.track i key managed).checkedOut.lookup a = some t →
      (a = c.address ∧ t = ⟨key, i, managed⟩) ∨ (a ≠ c.address ∧ p.checkedOut.lookup a = some t) := by
    intro a t hat
    simp only [IdlePool.track, ha] at hat
    by_cases he : a = c.address
    · subst he
      rw [AList.lookup_insert] at hat
      exact .inl ⟨rfl, (Option.some.inj hat).symm⟩
    · rw [AList.lookup_insert_ne he] at hat
      exact .inr ⟨he, hat⟩
  refine ⟨h.config, h.idle, h.once, h.bound, ?_, ?_, h.addresses, ?_, ?_, h.lent⟩
  · intro a t hat
    rcases hlook a t hat with ⟨rfl, rfl⟩ | ⟨_, hat⟩
    · exact ⟨c, hc, rfl, hk⟩
    · exact h.tracked a t hat
  · intro a t hat key' conn hconn
    rcases hlook a t hat with ⟨rfl, rfl⟩ | ⟨_, hat⟩
    · exact hn key' conn hconn
    · exact h.apart a t hat key' conn hconn
  · intro j d (hd : p.clients[j]? = some d) hdl
    change (i == j || isOut j p.notes) = true ↔ _
    by_cases hij : i = j
    · subst hij
      simp only [beq_self_eq_true, Bool.true_or, true_iff]
      refine ⟨c.address, ⟨key, i, managed⟩, ?_, rfl⟩
      simp only [IdlePool.track, ha, AList.lookup_insert]
    · have hji : (i == j) = false := by simpa using hij
      rw [hji, Bool.false_or, h.out j d hd hdl]
      constructor
      · rintro ⟨a, t, hat, rfl⟩
        obtain ⟨e, he, hea, _⟩ := h.tracked a t hat
        rw [hd] at he
        cases he
        refine ⟨a, t, ?_, rfl⟩
        have hne : a ≠ c.address := hea ▸ hother _ _ hd hdl (Ne.symm hij)
        simp only [IdlePool.track, ha]
        rw [AList.lookup_insert_ne hne, hat]
      · rintro ⟨a, t, hat, rfl⟩
        rcases hlook a t hat with ⟨_, rfl⟩ | ⟨_, hat⟩
        · exact absurd rfl hij
        · exact ⟨a, t, hat, rfl⟩
  · intro j hj
    change (i == j || isOut j p.notes) = true at hj
    rcases Bool.or_eq_true_iff.mp hj with hj | hj
    · rw [← eq_of_beq hj]
      exact (List.getElem?_eq_some_iff.mp hc).1
    · exact h.known j hj

theorem Inv.keep (h : Inv limit p) (hq : p.queue key = conn :: rest) (managed : Bool) :
    Inv limit ((p.setQueue key rest).track conn.client key managed) := by
  have hs : rest.Sublist (p.queue key) := hq ▸ List.sublist_cons_self conn rest
  obtain ⟨c, hc, hl, hk⟩ := h.idle key conn (hq ▸ List.mem_cons_self)
  refine (h.setQueue hs).track hc hl hk (fun key' conn' hmem heq => ?_) managed
  rw [queue_setQueue] at hmem
  split at hmem
  · have hnd := h.once key
    rw [hq, List.map_cons, List.nodup_cons] at hnd
    exact hnd.1 (heq ▸ List.mem_map_of_mem hmem)
  next hne =>
    obtain ⟨d, hd, _, hdk⟩ := h.idle key' conn' hmem
    rw [heq, hc] at hd
    cases hd
    exact hne (hdk.symm.trans hk)

theorem Inv.lend (h : Inv limit p) (hc : p.clients[i]? = some c) (hk : c.identity = key)
    (hp : reused = true → pending = false) : Inv limit (p.lend i key reused pending) := by
  refine ⟨h.config, h.idle, h.once, h.bound, h.tracked, h.apart, h.addresses, h.out, h.known, ?_⟩
  intro l hl
  rcases List.mem_cons.mp hl with rfl | hl
  · exact ⟨⟨c, hc, hk⟩, hp⟩
  · exact h.lent l hl

theorem Inv.scan (look : Nat → Look) (managed : Bool) (queue : List IdleConn) :
    ∀ p : IdlePool, Inv limit p → p.queue key = queue →
      Inv limit (IdlePool.scan look key managed queue p).1 := by
  induction queue with
  | nil => exact fun p h _ => h.eraseQueue key
  | cons conn queue ih =>
    intro p h hq
    have hs : queue.Sublist (p.queue key) := hq ▸ List.sublist_cons_self conn queue
    rw [IdlePool.scan]
    dsimp only
    split
    · exact ih _ (h.keep hq false) (by simp)
    split
    next hp _ =>
      obtain ⟨c, hc, hl, hk⟩ := h.idle key conn (hq ▸ List.mem_cons_self)
      have hkeep := h.keep hq managed
      split
      · exact (hkeep.eraseQueue key).lend hc hk fun _ => by simpa using hp
      · exact hkeep.lend hc hk fun _ => by simpa using hp
    · exact ih _ (h.setQueue hs) (by simp)

theorem Inv.reuse (h : Inv limit p) (look : Nat → Look) (key : PoolIdentity) (managed : Bool) :
    Inv limit (p.reuse look key managed).1 := by
  unfold IdlePool.reuse
  split
  next queue hq => exact Inv.scan look managed queue p h (by simp [IdlePool.queue, hq])
  · exact h

theorem not_idle_of_isIdle {p : IdlePool} (h : p.isIdle i = false) :
    ∀ key, ∀ conn ∈ p.queue key, conn.client ≠ i := by
  intro key conn hconn he
  have hk := mem_keys_of_queue hconn
  unfold isIdle at h
  rw [List.any_eq_false] at h
  have hq := h key hk
  rw [Bool.not_eq_true, List.any_eq_false] at hq
  exact hq conn hconn (by simp [he])

theorem Inv.destroy (h : Inv limit p) (hd : p.destroy i = some p') : Inv limit p' := by
  unfold IdlePool.destroy at hd
  split at hd
  next c hc =>
    split at hd
    next hg =>
      cases hd
      simp only [Bool.and_eq_true, Bool.not_eq_true'] at hg
      have hidle := not_idle_of_isIdle hg.2
      have hlt := (List.getElem?_eq_some_iff.mp hc).1
      have hset : ∀ (j : Nat) (d : HttpClient),
          (p.clients.set i { c with live := false })[j]? = some d → d.live = true →
            p.clients[j]? = some d := by
        intro j d hj hl
        rw [List.getElem?_set] at hj
        split at hj
        · cases hj
          cases hl
        · exact hj
      have hkeep : ∀ (j : Nat) (d : HttpClient), p.clients[j]? = some d →
          ∃ e, (p.clients.set i { c with live := false })[j]? = some e ∧
            e.address = d.address ∧ e.identity = d.identity := by
        intro j d hj
        by_cases hij : i = j
        · subst hij
          rw [hc] at hj
          cases hj
          exact ⟨{ c with live := false }, List.getElem?_set_self hlt, rfl, rfl⟩
        · exact ⟨d, by rw [List.getElem?_set_ne hij, hj], rfl, rfl⟩
      refine ⟨h.config, ?_, h.once, h.bound, ?_, h.apart, ?_, ?_, ?_, ?_⟩
      · intro key conn hconn
        obtain ⟨d, hd, hdl, hdk⟩ := h.idle key conn hconn
        exact ⟨d, by rw [List.getElem?_set_ne (Ne.symm (hidle key conn hconn)), hd], hdl, hdk⟩
      · intro a t hat
        obtain ⟨d, hd, hda, hdk⟩ := h.tracked a t hat
        obtain ⟨e, he, hea, hek⟩ := hkeep _ d hd
        exact ⟨e, he, hea.trans hda, hek.trans hdk⟩
      · intro j k d e hj hk hdl hel ha
        exact h.addresses j k d e (hset j d hj hdl) (hset k e hk hel) hdl hel ha
      · exact fun j d hj hdl => h.out j d (hset j d hj hdl) hdl
      · intro j hj
        rw [List.length_set]
        exact h.known j hj
      · intro l hl
        obtain ⟨⟨d, hd, hdk⟩, hp⟩ := h.lent l hl
        obtain ⟨e, he, _, hek⟩ := hkeep _ d hd
        exact ⟨⟨e, he, hek.trans hdk⟩, hp⟩
    · cases hd
  · cases hd

theorem Inv.make (h : Inv limit p) (hm : p.make place identity = some p') :
    Inv limit p' ∧ p'.clients[p.clients.length]? = some ⟨place, identity, true⟩ ∧
      (∀ key, p'.queue key = p.queue key) ∧
      (∀ key, ∀ conn ∈ p.queue key, conn.client ≠ p.clients.length) := by
  unfold IdlePool.make at hm
  split at hm
  · cases hm
  next hfree =>
    cases hm
    rw [Bool.not_eq_true, List.any_eq_false] at hfree
    have hold : ∀ (j : Nat) (d : HttpClient), p.clients[j]? = some d →
        (p.clients ++ [⟨place, identity, true⟩])[j]? = some d := fun j d hj => by
      rw [List.getElem?_append_left (List.getElem?_eq_some_iff.mp hj).1, hj]
    have hcases : ∀ (j : Nat) (d : HttpClient),
        (p.clients ++ [⟨place, identity, true⟩])[j]? = some d →
          p.clients[j]? = some d ∨ (j = p.clients.length ∧ d = ⟨place, identity, true⟩) := by
      intro j d hj
      rcases Nat.lt_trichotomy j p.clients.length with hlt | rfl | hgt
      · rw [List.getElem?_append_left hlt] at hj
        exact .inl hj
      · rw [List.getElem?_concat_length] at hj
        exact .inr ⟨rfl, (Option.some.inj hj).symm⟩
      · rw [List.getElem?_eq_none (by simp; omega)] at hj
        cases hj
    have hne : ∀ (j : Nat) (d : HttpClient), p.clients[j]? = some d → d.live = true →
        d.address ≠ place := by
      intro j d hj hl ha
      exact hfree d (List.mem_of_getElem? hj) (by simp [hl, ha])
    have hlt : ∀ (j : Nat) (d : HttpClient), p.clients[j]? = some d → j ≠ p.clients.length :=
      fun j d hj => Nat.ne_of_lt (List.getElem?_eq_some_iff.mp hj).1
    refine ⟨⟨h.config, ?_, h.once, h.bound, ?_, h.apart, ?_, ?_, ?_, ?_⟩, ?_, fun _ => rfl, ?_⟩
    · intro key conn hconn
      obtain ⟨d, hd, hdl, hdk⟩ := h.idle key conn hconn
      exact ⟨d, hold _ d hd, hdl, hdk⟩
    · intro a t hat
      obtain ⟨d, hd, hda, hdk⟩ := h.tracked a t hat
      exact ⟨d, hold _ d hd, hda, hdk⟩
    · intro j k d e hj hk hdl hel ha
      rcases hcases j d hj with hj | ⟨rfl, rfl⟩ <;> rcases hcases k e hk with hk | ⟨rfl, rfl⟩
      · exact h.addresses j k d e hj hk hdl hel ha
      · exact absurd ha (hne j d hj hdl)
      · exact absurd ha.symm (hne k e hk hel)
      · rfl
    · intro j d hj hdl
      rcases hcases j d hj with hj | ⟨rfl, rfl⟩
      · exact h.out j d hj hdl
      · -- Neither the notes nor the tickets know of the new client.
        constructor
        · exact fun hout => absurd (h.known _ hout) (Nat.lt_irrefl _)
        · rintro ⟨a, t, hat, ht⟩
          obtain ⟨d, hd, _⟩ := h.tracked a t hat
          exact absurd ht (hlt _ d hd)
    · intro j hj
      rw [List.length_append]
      exact Nat.lt_add_right _ (h.known j hj)
    · intro l hl
      obtain ⟨⟨d, hd, hdk⟩, hp⟩ := h.lent l hl
      exact ⟨⟨d, hold _ d hd, hdk⟩, hp⟩
    · simp
    · intro key conn hconn
      obtain ⟨d, hd, _⟩ := h.idle key conn hconn
      exact hlt _ d hd

theorem Inv.destroyAll (freed : List Nat) :
    ∀ p p' : IdlePool, Inv limit p → freed.foldlM IdlePool.destroy p = some p' → Inv limit p' := by
  intro p p' h hf
  exact Runs.accepted (P := fun p _ => Inv limit p) (fun _ _ _ _ h hs => h.destroy hs) h hf

theorem Inv.acquireFrom (h : Inv limit p)
    (ha : p.acquireFrom host port options managed look freed place = some p') :
    Inv limit p' := by
  unfold IdlePool.acquireFrom at ha
  split at ha
  · cases ha
    exact h
  dsimp only at ha
  have hfound := h.reuse look (PoolIdentity.of host port options) managed
  split at ha
  · cases ha
    exact hfound
  · simp only [Option.bind_eq_bind, Option.bind_eq_some_iff, Option.pure_def,
      Option.some.injEq] at ha
    obtain ⟨q, hq, r, hr, rfl⟩ := ha
    have hqi := Inv.destroyAll freed _ q hfound hq
    obtain ⟨hri, hc, hsame, hnew⟩ := hqi.make hr
    refine (hri.track hc rfl rfl (fun key' conn hconn => ?_) managed).lend hc rfl (by simp)
    exact hnew key' conn (hsame key' ▸ hconn)

theorem Inv.erase (h : Inv limit p) (a : Nat) (notes : List Note)
    (hout : ∀ (j : Nat) (d : HttpClient), p.clients[j]? = some d → d.live = true →
      (isOut j notes = true ↔ isOut j p.notes = true ∧ d.address ≠ a))
    (hknown : ∀ j, isOut j notes = true → isOut j p.notes = true) :
    Inv limit { p with checkedOut := p.checkedOut.erase a, notes } := by
  have hlook : ∀ b t, (p.checkedOut.erase a).lookup b = some t →
      b ≠ a ∧ p.checkedOut.lookup b = some t := by
    intro b t hbt
    by_cases he : b = a
    · subst he
      rw [AList.lookup_erase] at hbt
      cases hbt
    · rw [AList.lookup_erase_ne he] at hbt
      exact ⟨he, hbt⟩
  refine ⟨h.config, h.idle, h.once, h.bound, fun b t hbt => h.tracked b t (hlook b t hbt).2,
    fun b t hbt => h.apart b t (hlook b t hbt).2, h.addresses, ?_,
    fun j hj => h.known j (hknown j hj), h.lent⟩
  intro j d hd hl
  rw [hout j d hd hl, h.out j d hd hl]
  constructor
  · rintro ⟨⟨b, t, hbt, rfl⟩, hne⟩
    obtain ⟨e, he, hea, _⟩ := h.tracked b t hbt
    cases hd.symm.trans he
    refine ⟨b, t, ?_, rfl⟩
    dsimp only
    rw [AList.lookup_erase_ne (hea ▸ hne), hbt]
  · rintro ⟨b, t, hbt, rfl⟩
    obtain ⟨hne, hbt⟩ := hlook b t hbt
    obtain ⟨e, he, hea, _⟩ := h.tracked b t hbt
    cases hd.symm.trans he
    exact ⟨⟨b, t, hbt, rfl⟩, hea ▸ hne⟩

theorem Inv.lookup_of_tracked (h : Inv limit p) (hc : p.clients[i]? = some c)
    (ht : p.Tracked i) : ∃ t, p.checkedOut.lookup c.address = some t ∧ t.instance = i := by
  obtain ⟨a, t, hat, rfl⟩ := ht
  obtain ⟨d, hd, hda, _⟩ := h.tracked a t hat
  cases hc.symm.trans hd
  exact ⟨t, hda ▸ hat, rfl⟩

theorem Inv.eraseStale (h : Inv limit p) (ht : p.checkedOut.lookup a = some t)
    (hs : ∀ c, p.clients[t.instance]? = some c → c.live = true → c.address ≠ a) :
    Inv limit { p with checkedOut := p.checkedOut.erase a } := by
  refine h.erase a p.notes (fun j d hd hl => ⟨fun hj => ⟨hj, ?_⟩, fun hj => hj.1⟩) fun _ hj => hj
  rintro rfl
  obtain ⟨u, hu, rfl⟩ := h.lookup_of_tracked hd ((h.out j d hd hl).mp hj)
  cases ht.symm.trans hu
  exact hs d hd hl rfl

theorem Inv.expire (h : Inv limit p) (a : Nat) : Inv limit (p.expire a) := by
  unfold IdlePool.expire
  split
  next t ht =>
    split
    · exact h
    next hl =>
      refine h.eraseStale ht fun c hc hcl => ?_
      simp [isLive, hc, hcl] at hl
  · exact h

theorem evict_sublist (limit : Nat) (queue : List IdleConn) :
    (evict limit queue).Sublist queue := by
  induction queue with
  | nil => exact List.Sublist.refl _
  | cons conn queue ih =>
    rw [evict]
    split
    · exact ih.cons conn
    · exact List.Sublist.refl _

theorem evict_length (limit : Nat) (queue : List IdleConn) : (evict limit queue).length ≤ limit := by
  induction queue with
  | nil => exact Nat.zero_le _
  | cons conn queue ih =>
    rw [evict]
    split
    · exact ih
    next h => exact Nat.not_lt.mp h

theorem Inv.putBack (h : Inv limit p) (hc : p.clients[i]? = some c) (hl : c.live = true)
    (hk : c.identity = key) (ht : ¬ p.Tracked i)
    (hn : ∀ key', ∀ conn ∈ p.queue key', conn.client ≠ i) (now : Nat) :
    Inv limit (p.setQueue key (evict limit (p.queue key ++ [⟨i, now⟩]))) := by
  have hsub := evict_sublist limit (p.queue key ++ [⟨i, now⟩])
  have hmem : ∀ conn ∈ evict limit (p.queue key ++ [⟨i, now⟩]),
      conn ∈ p.queue key ∨ conn = ⟨i, now⟩ := fun conn hconn => by
    simpa using hsub.subset hconn
  refine ⟨h.config, ?_, ?_, ?_, h.tracked, ?_, h.addresses, h.out, h.known, h.lent⟩
  · intro key' conn hconn
    rw [queue_setQueue] at hconn
    split at hconn
    next he =>
      subst he
      rcases hmem conn hconn with hconn | rfl
      · exact h.idle _ conn hconn
      · exact ⟨c, hc, hl, hk⟩
    · exact h.idle key' conn hconn
  · intro key'
    rw [queue_setQueue]
    split
    · refine List.Nodup.sublist (hsub.map _) ?_
      rw [List.map_append, List.map_singleton, ← List.concat_eq_append]
      refine (h.once key).concat fun hi => ?_
      obtain ⟨conn, hconn, he⟩ := List.mem_map.mp hi
      exact hn key conn hconn he
    · exact h.once key'
  · intro key'
    rw [queue_setQueue]
    split
    · exact evict_length ..
    · exact h.bound key'
  · intro a t hat key' conn hconn
    rw [queue_setQueue] at hconn
    split at hconn
    next he =>
      subst he
      rcases hmem conn hconn with hconn | rfl
      · exact h.apart a t hat _ conn hconn
      · exact fun he => ht ⟨a, t, hat, he.symm⟩
    · exact h.apart a t hat key' conn hconn

theorem Inv.releaseTo (h : Inv limit p) (hc : p.clients[i]? = some c) (hl : c.live = true)
    (look : Look) (now : Nat) : Inv limit (p.releaseTo i look now) := by
  obtain rfl := h.config
  have ha := address_eq hc
  unfold IdlePool.releaseTo
  rw [ha]
  split
  · exact h
  next t ht =>
    split
    next hne =>
      unfold untrack
      rw [ha]
      refine h.eraseStale ht fun d hd hdl he => hne ?_
      exact h.addresses _ _ d c hd hc hdl hl he
    next heq =>
      have heq := not_not.mp heq
      split
      · exact h
      · have hback : Inv p.maxIdlePerBucket { p.untrack i with notes := .back i :: p.notes } := by
          unfold untrack
          rw [ha]
          refine h.erase c.address _ (fun j d hd hdl => ?_) fun j hj => ?_
          · change (i != j && isOut j p.notes) = true ↔ _
            rw [Bool.and_eq_true, bne_iff_ne, and_comm]
            refine and_congr_right fun _ => not_congr ⟨?_, ?_⟩
            · rintro rfl
              cases hc.symm.trans hd
              rfl
            · exact fun he => h.addresses i j c d hc hd hl hdl he.symm
          · change (i != j && isOut j p.notes) = true at hj
            exact (Bool.and_eq_true_iff.mp hj).2
        dsimp only
        split
        · exact hback
        · have hid : c.identity = t.identity := by
            obtain ⟨d, hd, _, hdk⟩ := h.tracked _ t ht
            rw [heq] at hd
            cases hc.symm.trans hd
            exact hdk
          refine hback.putBack hc hl hid ?_ ?_ now
          · rw [← hback.out i c hc hl]
            simp [isOut]
          · intro key conn hconn he
            exact h.apart _ t ht key conn hconn (he.trans heq.symm)

theorem Inv.sweepQueue (look : Nat → Look) (now : Nat) (queue : List IdleConn) :
    ∀ p : IdlePool, Inv limit p → p.queue key = queue →
      Inv limit (IdlePool.sweepQueue look now key queue p) := by
  induction queue with
  | nil => exact fun p h _ => h.eraseQueue key
  | cons front queue ih =>
    intro p h hq
    rw [IdlePool.sweepQueue]
    split
    · exact ih _ (h.keep hq false) (by simp)
    split
    · exact h
    · exact ih _ (h.setQueue (hq ▸ List.sublist_cons_self front queue)) (by simp)

theorem Inv.sweep (h : Inv limit p) (look : Nat → Look) (now : Nat) :
    Inv limit (p.sweep look now) := by
  have hexp : Inv limit (p.checkedOut.keys.foldl IdlePool.expire p) :=
    List.foldlRecOn _ _ h fun q hq a _ => hq.expire a
  exact List.foldlRecOn _ _ hexp fun q hq key _ => Inv.sweepQueue look now _ q hq rfl

theorem Inv.stopped (h : Inv limit p) : Inv limit p.stopped := by
  refine ⟨h.config, ?_, ?_, ?_, ?_, ?_, h.addresses, ?_, ?_, h.lent⟩
  all_goals simp [IdlePool.stopped, IdlePool.queue, isOut, Tracked]

theorem Inv.step (h : Inv limit p) (e : PoolEvent) (hs : p.step e = some p') : Inv limit p' := by
  cases e with
  | foreign place identity => exact (h.make hs).1
  | destroy i => exact h.destroy hs
  | acquire host port options managed look freed place => exact h.acquireFrom hs
  | release i look now =>
    simp only [IdlePool.step] at hs
    split at hs
    next hl =>
      cases hs
      cases hc : p.clients[i]? with
      | none => simp [isLive, hc] at hl
      | some c => exact h.releaseTo hc (by simpa [isLive, hc] using hl) look now
    · cases hs
  | sweep look now =>
    obtain ⟨-, ⟨⟩⟩ := Option.ite_none_left_eq_some.1 hs
    exact h.sweep look now
  | shutdown =>
    cases hs
    exact ⟨h.config, h.idle, h.once, h.bound, h.tracked, h.apart, h.addresses, h.out, h.known,
      h.lent⟩
  | stopped =>
    obtain ⟨-, rfl⟩ := Option.ite_some_none_eq_some.1 hs
    exact h.stopped

theorem Inv.run (events : List PoolEvent) :
    ∀ p p' : IdlePool, Inv limit p → p.run events = some p' → Inv limit p' := by
  intro p p' h hr
  exact Runs.accepted (P := fun p _ => Inv limit p) (fun _ e _ _ h hs => h.step e hs) h hr

/-- What holds of the lending side of the pool in every state. -/
structure Exclusive (limit : Nat) (p : IdlePool) : Prop where
  /-- An idle client lies once in one bucket, and is not checked out. -/
  place : ∀ key, ∀ conn ∈ p.queue key,
    ((p.queue key).map (·.client)).count conn.client = 1 ∧
      (∀ key', ∀ conn' ∈ p.queue key', conn'.client = conn.client → key' = key) ∧
      ¬ p.Tracked conn.client
  lentAs : ∀ l ∈ p.lent, ∃ c, p.clients[l.client]? = some c ∧ c.identity = l.identity
  notPending : ∀ l ∈ p.lent, l.reused = true → l.pending = false
  bound : ∀ key, (p.queue key).length ≤ limit
  /-- A client that is not out, because it was returned before or never lent, changes no bucket
  when it is released. -/
  ignored : ∀ i look now, p.isLive i = true → isOut i p.notes = false →
    (p.releaseTo i look now).buckets = p.buckets

theorem Inv.ignored (h : Inv limit p) (hl : p.isLive i = true) (ho : isOut i p.notes = false)
    (look : Look) (now : Nat) : (p.releaseTo i look now).buckets = p.buckets := by
  cases hc : p.clients[i]? with
  | none => simp [isLive, hc] at hl
  | some c =>
    have hcl : c.live = true := by simpa [isLive, hc] using hl
    have hn : ¬ p.Tracked i := by
      rw [← h.out i c hc hcl, ho]
      exact Bool.false_ne_true
    unfold IdlePool.releaseTo
    split
    · rfl
    next t ht =>
      rw [if_pos fun he => hn ⟨_, t, ht, he⟩]
      rfl

/-- For every sequence of calls, a client is idle in one place or checked out, is lent only for
the identity it was made with and never with requests pending, no bucket is over its limit, and a
release of a client that is not out leaves the buckets alone. -/
theorem lending_exclusive (idleTimeout limit : Nat) (events : List PoolEvent) (p : IdlePool)
    (h : IdlePool.run { idleTimeout, maxIdlePerBucket := limit } events = some p) :
    Exclusive limit p := by
  have hi := Inv.run events _ p (Inv.start idleTimeout limit) h
  refine ⟨fun key conn hconn => ⟨?_, ?_, ?_⟩, fun l hl => (hi.lent l hl).1,
    fun l hl => (hi.lent l hl).2, hi.bound, fun i look now hl ho => hi.ignored hl ho look now⟩
  · exact List.count_eq_one_of_mem (hi.once key) (List.mem_map_of_mem hconn)
  · intro key' conn' hconn' he
    obtain ⟨c, hc, _, hk⟩ := hi.idle key conn hconn
    obtain ⟨d, hd, _, hdk⟩ := hi.idle key' conn' hconn'
    rw [he, hc] at hd
    cases hd
    exact hdk.symm.trans hk
  · rintro ⟨a, t, hat, he⟩
    exact hi.apart a t hat key conn hconn he.symm

/-- A client is lent, returned twice, and lent again; one made elsewhere is released too. -/
def lendingRun : List PoolEvent :=
  [.acquire [1] 80 {} false (fun _ => ⟨false, true⟩) [] 7, .release 0 ⟨false, true⟩ 5,
    .release 0 ⟨false, true⟩ 6, .foreign 9 (PoolIdentity.of [2] 80 {}),
    .release 1 ⟨false, true⟩ 7, .acquire [1] 80 {} true (fun _ => ⟨false, true⟩) [] 8,
    .release 0 ⟨false, true⟩ 9]

theorem lending_exclusive_again :
    ∃ p, IdlePool.run { idleTimeout := 30000, maxIdlePerBucket := 8 } lendingRun = some p ∧
      p.idleCount = 1 ∧ Exclusive 8 p :=
  ⟨_, rfl, rfl, lending_exclusive 30000 8 lendingRun _ rfl⟩

end Hical.Client.IdlePool
