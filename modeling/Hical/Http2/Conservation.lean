import Hical.Http2.Budget

namespace Hical.Http2
open Ledger

def Lease.charge (c : Nat) (r : Resource) (l : Lease) : Nat :=
  if l.state = some c ∧ l.resource = r then l.amount else 0

def Budgets.counts (b : Budgets) (k : Nat) (l : Lease) : Bool :=
  match l.state with
  | none => false
  | some c => decide (l.resource = .hApplicationTask ∧ (b.states c).service = some k)

def Budgets.task (b : Budgets) (k : Nat) (l : Lease) : Nat := (b.counts k l).toNat

/-- What a lease may hold at most, whatever the connection has left. -/
def BudgetState.perStream (s : BudgetState) : Resource → Nat
  | .hProtocolStream => 1
  | .hApplicationTask => 1
  | .hReceiveBytes => s.streamReceiveLimit
  | .hSendBytes => s.limits .hSendBytes

/-- A lease that holds something is of a connection that exists and within its bound. -/
structure Lease.Valid (b : Budgets) (l : Lease) : Prop where
  known : ∀ c, l.state = some c → c < b.stateCount
  bound : ∀ c, l.state = some c → l.limit = (b.states c).perStream l.resource
  within : l.state.isSome → l.amount ≤ l.limit
  slot : l.state.isSome → l.resource.isSlot → l.amount = 1
  empty : l.state = none → l.amount = 0

/-- The counters agree with the leases. -/
structure Conserved (b : Budgets) (ls : List Lease) : Prop where
  used : ∀ c r, (b.states c).used r = total (Lease.charge c r) ls
  within : ∀ c r, (b.states c).used r ≤ (b.states c).limits r
  small : ∀ c r, (b.states c).limits r < 2 ^ 64
  streamSmall : ∀ c, (b.states c).streamReceiveLimit < 2 ^ 64
  served : ∀ k, (b.services k).used = total (b.task k) ls
  servedWithin : ∀ k, (b.services k).used ≤ (b.services k).limit
  servedSmall : ∀ k, (b.services k).limit < 2 ^ 64
  known : ∀ c k, (b.states c).service = some k → k < b.serviceCount
  leases : ∀ l ∈ ls, l.Valid b
  safe : b.underflow = false

/-- The same limits and the same sharing. -/
structure Alike (b b' : Budgets) : Prop where
  limits : ∀ c, (b'.states c).limits = (b.states c).limits
  stream : ∀ c, (b'.states c).streamReceiveLimit = (b.states c).streamReceiveLimit
  service : ∀ c, (b'.states c).service = (b.states c).service
  limit : ∀ k, (b'.services k).limit = (b.services k).limit
  states : b'.stateCount = b.stateCount
  services : b'.serviceCount = b.serviceCount
  underflow : b'.underflow = b.underflow

namespace Alike

theorem rfl (b : Budgets) : Alike b b := by
  constructor <;> intros <;> exact Eq.refl _

theorem trans (h : Alike b b') (h' : Alike b' b'') : Alike b b'' where
  limits c := (h'.limits c).trans (h.limits c)
  stream c := (h'.stream c).trans (h.stream c)
  service c := (h'.service c).trans (h.service c)
  limit k := (h'.limit k).trans (h.limit k)
  states := h'.states.trans h.states
  services := h'.services.trans h.services
  underflow := h'.underflow.trans h.underflow

theorem task (h : Alike b b') : b'.task k = b.task k := by
  funext l
  have hc : b'.counts k l = b.counts k l := by
    rw [Budgets.counts, Budgets.counts]
    cases l.state with
    | none => exact Eq.refl _
    | some c =>
      dsimp only
      rw [h.service]
  rw [Budgets.task, Budgets.task, hc]

theorem perStream (h : Alike b b') (c : Nat) : (b'.states c).perStream = (b.states c).perStream := by
  funext r
  cases r with
  | hProtocolStream => exact Eq.refl _
  | hApplicationTask => exact Eq.refl _
  | hReceiveBytes => exact h.stream c
  | hSendBytes => exact congrFun (h.limits c) _

theorem valid (h : Alike b b') {l : Lease} (hl : l.Valid b) : l.Valid b' where
  known c hc := by
    rw [h.states]
    exact hl.known c hc
  bound c hc := by
    rw [h.perStream]
    exact hl.bound c hc
  within := hl.within
  slot := hl.slot
  empty := hl.empty

end Alike

section Used
variable (b : Budgets)

theorem minus_eq (h : y ≤ x) (hx : x < 2 ^ 64) : b.minus x y = (b, x - y) := by
  have hd : decide (x < y) = false := decide_eq_false (Nat.not_lt_of_le h)
  have hm : (x + 2 ^ 64 - y) % 2 ^ 64 = x - y := by omega
  rw [Budgets.minus, hd, Bool.or_false, hm]

theorem setUsed_used (c : Nat) (r : Resource) (n c' : Nat) (r' : Resource) :
    ((b.setUsed c r n).states c').used r' =
      if c' = c ∧ r' = r then n else (b.states c').used r' := by
  rw [Budgets.setUsed]
  dsimp only
  by_cases hc : c' = c
  · subst hc
    rw [Function.update_self]
    dsimp only
    by_cases hr : r' = r
    · subst hr
      rw [Function.update_self, if_pos ⟨rfl, rfl⟩]
    · rw [Function.update_of_ne hr, if_neg fun h => hr h.2]
  · rw [Function.update_of_ne hc, if_neg fun h => hc h.1]

theorem alike_setUsed (c : Nat) (r : Resource) (n : Nat) : Alike b (b.setUsed c r n) := by
  have hs : ∀ {γ : Type} (g : BudgetState → γ), (∀ s u, g { s with used := u } = g s) →
      ∀ c', g ((b.setUsed c r n).states c') = g (b.states c') := by
    intro γ g hg c'
    rw [Budgets.setUsed]
    dsimp only
    by_cases hc : c' = c
    · subst hc
      rw [Function.update_self]
      exact hg _ _
    · rw [Function.update_of_ne hc]
  exact ⟨hs _ fun _ _ => rfl, hs _ fun _ _ => rfl, hs _ fun _ _ => rfl, fun _ => rfl, rfl, rfl, rfl⟩

theorem setServiceUsed_used (k n k' : Nat) :
    ((b.setServiceUsed k n).services k').used = if k' = k then n else (b.services k').used := by
  rw [Budgets.setServiceUsed]
  dsimp only
  by_cases hk : k' = k
  · subst hk
    rw [Function.update_self, if_pos rfl]
  · rw [Function.update_of_ne hk, if_neg hk]

theorem alike_setServiceUsed (k n : Nat) : Alike b (b.setServiceUsed k n) := by
  refine ⟨fun _ => rfl, fun _ => rfl, fun _ => rfl, ?_, rfl, rfl, rfl⟩
  intro k'
  rw [Budgets.setServiceUsed]
  dsimp only
  by_cases hk : k' = k
  · subst hk
    rw [Function.update_self]
  · rw [Function.update_of_ne hk]

end Used

theorem Lease.charge_of_ne {l : Lease} (h : ¬(c = c' ∧ r = r')) (hs : l.state = some c')
    (hr : l.resource = r') : l.charge c r = 0 := by
  rw [Lease.charge, if_neg]
  rintro ⟨h₁, h₂⟩
  rw [hs] at h₁
  exact h ⟨(Option.some.inj h₁).symm, h₂.symm.trans hr⟩

theorem Lease.charge_self {l : Lease} (hs : l.state = some c) : l.charge c l.resource = l.amount := by
  rw [Lease.charge, if_pos ⟨hs, rfl⟩]

theorem Lease.charge_none {l : Lease} (hs : l.state = none) : l.charge c r = 0 := by
  rw [Lease.charge, if_neg]
  rintro ⟨h, -⟩
  rw [hs] at h
  cases h

theorem Budgets.task_none {l : Lease} (b : Budgets) (hs : l.state = none) : b.task k l = 0 := by
  rw [Budgets.task, Budgets.counts, hs]
  rfl

theorem Budgets.task_of_ne {l : Lease} (b : Budgets) (h : l.resource ≠ .hApplicationTask) :
    b.task k l = 0 := by
  have hc : b.counts k l = false := by
    rw [Budgets.counts]
    cases l.state with
    | none => rfl
    | some c => exact decide_eq_false fun hd => h hd.1
  rw [Budgets.task, hc]
  rfl

theorem Budgets.task_some {l : Lease} (b : Budgets) (hs : l.state = some c)
    (h : l.resource = .hApplicationTask) :
    b.task k l = if (b.states c).service = some k then 1 else 0 := by
  have hc : b.counts k l = decide ((b.states c).service = some k) := by
    rw [Budgets.counts, hs]
    dsimp only
    rw [h]
    exact decide_eq_decide.2 (and_iff_right rfl)
  rw [Budgets.task, hc]
  by_cases hk : (b.states c).service = some k
  · rw [decide_eq_true hk, if_pos hk]
    rfl
  · rw [decide_eq_false hk, if_neg hk]
    rfl

theorem Conserved.alike (h : Conserved b ls) (ha : Alike b b')
    (hused : ∀ c r, (b'.states c).used r = total (Lease.charge c r) ls')
    (hwithin : ∀ c r, (b'.states c).used r ≤ (b.states c).limits r)
    (hserved : ∀ k, (b'.services k).used = total (b.task k) ls')
    (hservedWithin : ∀ k, (b'.services k).used ≤ (b.services k).limit)
    (hleases : ∀ l ∈ ls', l.Valid b) : Conserved b' ls' where
  used := hused
  within c r := by
    rw [ha.limits]
    exact hwithin c r
  small c r := by
    rw [ha.limits]
    exact h.small c r
  streamSmall c := by
    rw [ha.stream]
    exact h.streamSmall c
  served k := by
    rw [ha.task]
    exact hserved k
  servedWithin k := by
    rw [ha.limit]
    exact hservedWithin k
  servedSmall k := by
    rw [ha.limit]
    exact h.servedSmall k
  known c k hk := by
    rw [ha.services]
    rw [ha.service] at hk
    exact h.known c k hk
  leases l hl := ha.valid (hleases l hl)
  safe := by
    rw [ha.underflow]
    exact h.safe

theorem Lease.valid_empty (b : Budgets) : ({} : Lease).Valid b :=
  ⟨nofun, nofun, nofun, nofun, fun _ => rfl⟩

theorem Conserved.append_empty (h : Conserved b ls) {l : Lease} (hl : l.state = none)
    (hv : l.Valid b) : Conserved b (ls ++ [l]) := by
  apply h.alike (.rfl b)
  · intro c r
    rw [total_append, total_cons, Lease.charge_none hl, h.used]
    rfl
  · exact h.within
  · intro k
    rw [total_append, total_cons, b.task_none hl, h.served]
    rfl
  · exact h.servedWithin
  · intro l' hl'
    rcases List.mem_append.1 hl' with hl' | hl'
    · exact h.leases l' hl'
    · rw [List.mem_singleton.1 hl']
      exact hv

structure Admitted (b b' : Budgets) (c : Nat) (r : Resource) : Prop where
  alike : Alike b b'
  used : ∀ c r, (b'.states c).used r = (b.states c).used r
  served : ∀ k, (b'.services k).used =
    (b.services k).used + if r = .hApplicationTask ∧ (b.states c).service = some k then 1 else 0
  within : ∀ k, (b'.services k).used ≤ (b.services k).limit

theorem Conserved.takeSlot (h : Conserved b ls) (c : Nat) (r : Resource) :
    (b.takeSlot c r).2 = false ∧ (b.takeSlot c r).1 = b ∨
      (b.takeSlot c r).2 = true ∧ Admitted b (b.takeSlot c r).1 c r := by
  have hsame : (∀ k, ¬(r = .hApplicationTask ∧ (b.states c).service = some k)) →
      Admitted b b c r := by
    intro hn
    refine ⟨.rfl b, fun _ _ => rfl, ?_, h.servedWithin⟩
    intro k
    rw [if_neg (hn k)]
    rfl
  rw [Budgets.takeSlot.eq_def]
  split
  · next k hk =>
    rw [Budgets.acquireService]
    split
    · next hlt =>
      have hsmall := h.servedSmall k
      refine .inr ⟨rfl, alike_setServiceUsed _ _ _, fun _ _ => rfl, ?_, ?_⟩
      · intro k'
        rw [setServiceUsed_used, hk]
        by_cases hkk : k' = k
        · subst hkk
          rw [if_pos rfl, if_pos ⟨rfl, rfl⟩, Nat.mod_eq_of_lt (Nat.lt_of_le_of_lt hlt hsmall)]
        · rw [if_neg hkk, if_neg fun hd => hkk (Option.some.inj hd.2).symm]
          rfl
      · intro k'
        rw [setServiceUsed_used]
        split
        · next hkk =>
          subst hkk
          rw [Nat.mod_eq_of_lt (Nat.lt_of_le_of_lt hlt hsmall)]
          exact hlt
        · exact h.servedWithin k'
    · exact .inl ⟨rfl, rfl⟩
  · next hn =>
    refine .inr ⟨rfl, hsame ?_⟩
    rintro k ⟨rfl, hk⟩
    exact hn k rfl hk

/-- A lease is given if all limits leave room for it, and nothing happens otherwise. -/
theorem Conserved.acquire (h : Conserved b ls) (hc : c < b.stateCount)
    (hl : limit = (b.states c).perStream r) (hs : r.isSlot → amount = 1)
    (hx : b.acquire c r amount limit = (b', l)) :
    Conserved b' (ls ++ [l]) ∧ Alike b b' ∧ (l.state = none → b' = b) := by
  have hno : (b, ({} : Lease)) = (b', l) →
      Conserved b' (ls ++ [l]) ∧ Alike b b' ∧ (l.state = none → b' = b) := by
    rintro ⟨⟩
    exact ⟨h.append_empty rfl (Lease.valid_empty b), .rfl b, fun _ => rfl⟩
  have hsmall := h.small c r
  rw [Budgets.acquire] at hx
  split at hx
  · exact hno hx
  next hle =>
  rw [minus_eq b (h.within c r) hsmall] at hx
  dsimp only at hx
  split at hx
  · exact hno hx
  next hroom =>
  rcases h.takeSlot c r with ⟨hf, hb⟩ | ⟨ht, ha⟩
  · rw [hf, hb, if_neg Bool.false_ne_true] at hx
    exact hno hx
  rw [ht, if_pos rfl, ha.used] at hx
  have hwithin := h.within c r
  rw [Nat.mod_eq_of_lt (by omega)] at hx
  generalize (b.takeSlot c r).1 = b₁ at ha hx
  cases hx
  refine ⟨?_, ha.alike.trans (alike_setUsed _ _ _ _), nofun⟩
  apply h.alike (ha.alike.trans (alike_setUsed _ _ _ _))
  · intro c' r'
    rw [setUsed_used, ha.used, total_append, total_cons, ← h.used, total_nil, Nat.add_zero]
    split
    · next hcr =>
      obtain ⟨rfl, rfl⟩ := hcr
      rw [Lease.charge, if_pos ⟨rfl, rfl⟩]
    · next hcr =>
      rw [Lease.charge_of_ne hcr rfl rfl]
      rfl
  · intro c' r'
    rw [setUsed_used, ha.used]
    split
    · next hcr =>
      obtain ⟨rfl, rfl⟩ := hcr
      omega
    · exact h.within c' r'
  · intro k
    have hk : ((b₁.setUsed c r ((b.states c).used r + amount)).services k).used =
        (b₁.services k).used := rfl
    rw [hk, ha.served, total_append, total_cons, ← h.served, total_nil, Nat.add_zero]
    by_cases hr : r = .hApplicationTask
    · rw [b.task_some rfl hr]
      by_cases hks : (b.states c).service = some k
      · rw [if_pos ⟨hr, hks⟩, if_pos hks]
      · rw [if_neg fun hd => hks hd.2, if_neg hks]
    · rw [b.task_of_ne hr, if_neg fun hd => hr hd.1]
  · exact ha.within
  · intro l' hl'
    rcases List.mem_append.1 hl' with hl' | hl'
    · exact h.leases l' hl'
    · rw [List.mem_singleton.1 hl']
      refine ⟨?_, ?_, fun _ => Nat.le_of_not_lt hle, fun _ => hs, nofun⟩
      · rintro _ ⟨⟩
        exact hc
      · rintro _ ⟨⟩
        exact hl

section Held
variable {l : Lease} {ls : List Lease} {i : Nat}

theorem Conserved.valid (h : Conserved b ls) (hi : ls[i]? = some l) : l.Valid b :=
  h.leases l (List.mem_of_getElem? hi)

theorem Conserved.perStream_lt (h : Conserved b ls) (c : Nat) (r : Resource) :
    (b.states c).perStream r < 2 ^ 64 := by
  cases r with
  | hProtocolStream | hApplicationTask => exact Nat.one_lt_two_pow (by decide)
  | hReceiveBytes => exact h.streamSmall c
  | hSendBytes => exact h.small c _

/-- One lease of bytes changes its amount, and the counter of its connection follows. -/
theorem Conserved.resize {bytes : Nat} (h : Conserved b ls) (hi : ls[i]? = some l)
    (hs : l.state = some c) (hr : l.resource.isSlot = false) (hb : bytes ≤ l.limit)
    (hn : n + l.amount = (b.states c).used l.resource + bytes)
    (hle : n ≤ (b.states c).limits l.resource) :
    Conserved (b.setUsed c l.resource n) (ls.set i { l with amount := bytes }) := by
  have hv := h.valid hi
  apply h.alike (alike_setUsed _ _ _ _)
  · intro c' r'
    have ht := total_set (f := Lease.charge c' r') hi { l with amount := bytes }
    rw [setUsed_used]
    split
    · next hcr =>
      obtain ⟨rfl, rfl⟩ := hcr
      rw [Lease.charge_self hs, ← h.used] at ht
      have hc : Lease.charge c' l.resource { l with amount := bytes } = bytes :=
        Lease.charge_self (l := { l with amount := bytes }) hs
      omega
    · next hcr =>
      rw [Lease.charge_of_ne hcr hs rfl,
        Lease.charge_of_ne (l := { l with amount := bytes }) hcr hs rfl] at ht
      rw [h.used]
      exact ht.symm
  · intro c' r'
    rw [setUsed_used]
    split
    · next hcr =>
      obtain ⟨rfl, rfl⟩ := hcr
      exact hle
    · exact h.within c' r'
  · intro k
    have ht := total_set (f := b.task k) hi { l with amount := bytes }
    have hk : b.task k { l with amount := bytes } = b.task k l := rfl
    have hu : ((b.setUsed c l.resource n).services k).used = (b.services k).used := rfl
    rw [hu, h.served]
    omega
  · exact h.servedWithin
  · intro l' hl'
    rcases List.mem_or_eq_of_mem_set hl' with hl' | rfl
    · exact h.leases l' hl'
    · refine ⟨hv.known, hv.bound, fun _ => hb, ?_, ?_⟩
      · intro _ hslot
        rw [hr] at hslot
        cases hslot
      · intro hnone
        rw [hs] at hnone
        cases hnone

theorem Conserved.tryResize {bytes : Nat} (h : Conserved b ls) (hi : ls[i]? = some l)
    (hx : b.tryResize l bytes = (b', l', ok)) :
    Conserved b' (ls.set i l') ∧ Alike b b' ∧ (ok = false → b' = b ∧ l' = l) ∧
      (ok = true → l' = { l with amount := bytes }) := by
  have hno : (b, l, false) = (b', l', ok) → Conserved b' (ls.set i l') ∧ Alike b b' ∧
      (ok = false → b' = b ∧ l' = l) ∧ (ok = true → l' = { l with amount := bytes }) := by
    rintro ⟨⟩
    rw [set_self hi]
    exact ⟨h, .rfl b, fun _ => ⟨rfl, rfl⟩, nofun⟩
  rw [Budgets.tryResize] at hx
  split at hx
  · exact hno hx
  next c hs =>
  split at hx
  · exact hno hx
  next hn =>
  have hr : l.resource.isSlot = false := Bool.eq_false_iff.2 fun hr => hn (.inl hr)
  have hle : bytes ≤ l.limit := Nat.le_of_not_lt fun hle => hn (.inr hle)
  have hcharge : l.amount ≤ (b.states c).used l.resource := by
    rw [h.used, ← Lease.charge_self hs]
    exact le_total hi
  have hwithin := h.within c l.resource
  have hsmall := h.small c l.resource
  have hbytes : bytes < 2 ^ 64 := by
    rw [(h.valid hi).bound c hs] at hle
    exact Nat.lt_of_le_of_lt hle (h.perStream_lt c _)
  dsimp only at hx
  split at hx
  · next hgrow =>
    rw [minus_eq b (Nat.le_of_lt hgrow) hbytes] at hx
    dsimp only at hx
    rw [minus_eq b hwithin hsmall] at hx
    dsimp only at hx
    split at hx
    · exact hno hx
    next hroom =>
    cases hx
    rw [Nat.mod_eq_of_lt (by omega)]
    refine ⟨h.resize hi hs hr hle (by omega) (by omega), alike_setUsed _ _ _ _, nofun, fun _ => rfl⟩
  · next hshrink =>
    rw [minus_eq b (Nat.le_of_not_lt hshrink) (by omega)] at hx
    dsimp only at hx
    rw [minus_eq b (by omega) (by omega)] at hx
    cases hx
    refine ⟨h.resize hi hs hr hle (by omega) (by omega), alike_setUsed _ _ _ _, nofun, fun _ => rfl⟩

theorem Conserved.free (h : Conserved b ls) (hi : ls[i]? = some l) (hs : l.state = some c)
    (ha : Alike b b')
    (hused : ∀ c' r', (b'.states c').used r' = if c' = c ∧ r' = l.resource
      then (b.states c).used l.resource - l.amount else (b.states c').used r')
    (hserved : ∀ k, (b'.services k).used = (b.services k).used - b.task k l) :
    Conserved b' (ls.set i { l with state := none, amount := 0 }) := by
  have hv := h.valid hi
  apply h.alike ha
  · intro c' r'
    have ht := total_set (f := Lease.charge c' r') hi { l with state := none, amount := 0 }
    rw [Lease.charge_none (l := { l with state := none, amount := 0 }) rfl] at ht
    rw [hused]
    split
    · next hcr =>
      obtain ⟨rfl, rfl⟩ := hcr
      rw [Lease.charge_self hs] at ht
      rw [h.used]
      omega
    · next hcr =>
      rw [Lease.charge_of_ne hcr hs rfl] at ht
      rw [h.used]
      exact ht.symm
  · intro c' r'
    rw [hused]
    split
    · next hcr =>
      obtain ⟨rfl, rfl⟩ := hcr
      exact Nat.le_trans (Nat.sub_le _ _) (h.within _ _)
    · exact h.within c' r'
  · intro k
    have ht := total_set (f := b.task k) hi { l with state := none, amount := 0 }
    rw [b.task_none (l := { l with state := none, amount := 0 }) rfl] at ht
    rw [hserved, h.served]
    omega
  · intro k
    rw [hserved]
    exact Nat.le_trans (Nat.sub_le _ _) (h.servedWithin k)
  · intro l' hl'
    rcases List.mem_or_eq_of_mem_set hl' with hl' | rfl
    · exact h.leases l' hl'
    · exact ⟨nofun, nofun, nofun, nofun, fun _ => rfl⟩

theorem Conserved.reset (h : Conserved b ls) (hi : ls[i]? = some l)
    (hx : b.reset l = (b', l')) :
    Conserved b' (ls.set i l') ∧ Alike b b' ∧ l'.state = none := by
  rw [Budgets.reset] at hx
  split at hx
  · next hs =>
    cases hx
    rw [set_self hi]
    exact ⟨h, .rfl b, hs⟩
  next c hs =>
  have hcharge : l.amount ≤ (b.states c).used l.resource := by
    rw [h.used, ← Lease.charge_self hs]
    exact le_total hi
  rw [minus_eq b hcharge (Nat.lt_of_le_of_lt (h.within c _) (h.small c _))] at hx
  dsimp only at hx
  have ha := alike_setUsed b c l.resource ((b.states c).used l.resource - l.amount)
  have hused := setUsed_used b c l.resource ((b.states c).used l.resource - l.amount)
  have hsv : ∀ k, ((b.setUsed c l.resource ((b.states c).used l.resource - l.amount)).services k) =
      b.services k := fun _ => rfl
  generalize b.setUsed c l.resource ((b.states c).used l.resource - l.amount) = b₁ at ha hused hsv hx
  split at hx
  · next k hr hk =>
    rw [ha.service] at hk
    have htask : b.task k l = 1 := by
      rw [b.task_some hs hr, if_pos hk]
    have hone : 1 ≤ (b₁.services k).used := by
      rw [hsv, h.served, ← htask]
      exact le_total hi
    have hlt : (b₁.services k).used < 2 ^ 64 := by
      rw [hsv]
      exact Nat.lt_of_le_of_lt (h.servedWithin k) (h.servedSmall k)
    rw [Budgets.releaseService, minus_eq b₁ hone hlt] at hx
    cases hx
    refine ⟨h.free hi hs (ha.trans (alike_setServiceUsed _ _ _)) hused ?_,
      ha.trans (alike_setServiceUsed _ _ _), rfl⟩
    intro k'
    rw [setServiceUsed_used]
    split
    · next hkk =>
      subst hkk
      rw [hsv, htask]
    · next hkk =>
      have hne : (b.states c).service ≠ some k' := by
        rw [hk]
        exact fun hkk' => hkk (Option.some.inj hkk').symm
      rw [hsv, b.task_some hs hr, if_neg hne]
      rfl
  · next hn =>
    cases hx
    refine ⟨h.free hi hs ha hused ?_, ha, rfl⟩
    intro k
    have htask : b.task k l = 0 := by
      by_cases hr : l.resource = .hApplicationTask
      · rw [b.task_some hs hr, if_neg]
        intro hk
        exact hn k hr ((ha.service c).trans hk)
      · exact b.task_of_ne hr
    rw [hsv, htask]
    rfl

theorem Conserved.move (h : Conserved b ls) (hi : ls[i]? = some l) (hj : ls[j]? = some l₀)
    (hn : l₀.state = none) (hij : i ≠ j) :
    Conserved b ((ls.set i l.moved.2).set j l.moved.1) := by
  have hj' : (ls.set i l.moved.2)[j]? = some l₀ := by
    rw [List.getElem?_set_ne hij]
    exact hj
  have hsum : ∀ f : Lease → Nat, f l.moved.2 = 0 → f l₀ = 0 →
      total f ((ls.set i l.moved.2).set j l.moved.1) = total f ls := by
    intro f h₁ h₂
    have t₁ := total_set (f := f) hi l.moved.2
    have t₂ := total_set (f := f) hj' l.moved.1
    have : f l.moved.1 = f l := rfl
    omega
  apply h.alike (.rfl b)
  · intro c r
    rw [hsum _ (Lease.charge_none rfl) (Lease.charge_none hn)]
    exact h.used c r
  · exact h.within
  · intro k
    rw [hsum _ (b.task_none rfl) (b.task_none hn)]
    exact h.served k
  · exact h.servedWithin
  · intro l' hl'
    rcases List.mem_or_eq_of_mem_set hl' with hl' | rfl
    · rcases List.mem_or_eq_of_mem_set hl' with hl' | rfl
      · exact h.leases l' hl'
      · exact ⟨nofun, nofun, nofun, nofun, fun _ => rfl⟩
    · exact h.valid hi

end Held

end Hical.Http2
