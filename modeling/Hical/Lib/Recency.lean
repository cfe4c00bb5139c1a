import Hical.Lib.Lru
import Mathlib.Data.Set.Card
import Mathlib.Logic.Function.Basic

/-! A map of limited size that gives up the key that was used least recently: told by the times of
the uses, as a list in the order of the uses, and as linked nodes. -/

namespace Lru

inductive Op (K E : Type) where
  | find (key : K)
  | insert (key : K) (entry : E)
  | erase (key : K)
  | clear

def Op.map (f : E → F) : Op K E → Op K F
  | .find key => .find key
  | .insert key entry => .insert key (f entry)
  | .erase key => .erase key
  | .clear => .clear

/-- What the keys stand for, and when each was used last. -/
structure Uses (K E : Type) where
  value : K → Option E := fun _ => none
  last : K → Nat := fun _ => 0
  now : Nat := 0

namespace Uses
variable {K E : Type} [DecidableEq K]

def keys (u : Uses K E) : Set K := {key | (u.value key).isSome}

def use (u : Uses K E) (key : K) : Uses K E :=
  { u with last := Function.update u.last key u.now, now := u.now + 1 }

def put (u : Uses K E) (key : K) (entry : E) : Uses K E :=
  { u with value := Function.update u.value key (some entry) }.use key

def forget (u : Uses K E) (key : K) : Uses K E := { u with value := Function.update u.value key none }

/-- Every other key was used after this one. -/
def Oldest (u : Uses K E) (key : K) : Prop := ∀ other ∈ u.keys, other ≠ key → u.last key < u.last other

/-- What an operation hands out, and what is left. -/
inductive Step (limit : Nat) : Uses K E → Op K E → List E → Uses K E → Prop where
  | hit (h : u.value key = some entry) : Step limit u (.find key) [entry] (u.use key)
  | miss (h : u.value key = none) : Step limit u (.find key) [] u
  | replace (h : u.value key = some old) : Step limit u (.insert key entry) [] (u.put key entry)
  | add (h : u.value key = none) (hroom : u.keys.ncard < limit) : Step limit u (.insert key entry) [] (u.put key entry)
  | evict (h : u.value key = none) (hfull : u.keys.ncard = limit) (hold : u.Oldest victim)
      (hv : u.value victim = some gone) : Step limit u (.insert key entry) [gone] ((u.forget victim).put key entry)
  /-- A map that has room for nothing gives up the new key. -/
  | refuse (h : limit = 0) : Step limit u (.insert key entry) [entry] u
  | erase (h : u.value key = some entry) : Step limit u (.erase key) [entry] (u.forget key)
  | absent (h : u.value key = none) : Step limit u (.erase key) [] u
  | clear {all : List K} (hnodup : all.Nodup) (hall : ∀ key, key ∈ all ↔ key ∈ u.keys) :
      Step limit u .clear (all.filterMap u.value) { u with value := fun _ => none }

inductive Run (limit : Nat) : Uses K E → List (Op K E) → List (List E) → Uses K E → Prop where
  | nil : Run limit u [] [] u
  | cons (h : Step limit u op out v) (hs : Run limit v ops outs w) : Run limit u (op :: ops) (out :: outs) w

theorem value_put (u : Uses K E) (key : K) (entry : E) (other : K) :
    (u.put key entry).value other = if other = key then some entry else u.value other :=
  Function.update_apply ..

theorem value_forget (u : Uses K E) (key other : K) :
    (u.forget key).value other = if other = key then none else u.value other :=
  Function.update_apply ..

theorem put_eq_use {u : Uses K E} (h : u.value key = some entry) : u.put key entry = u.use key := by
  rw [put, ← h, Function.update_eq_self]

theorem put_forget (u : Uses K E) (key : K) (entry : E) : (u.forget key).put key entry = u.put key entry := by
  rw [put, put, forget, Function.update_idem]

end Uses

/-- The keys and what they stand for, the one used last in front. -/
abbrev Recency (K E : Type) := List (K × E)

namespace Recency
variable {K E F : Type} [DecidableEq K]

def without (l : Recency K E) (key : K) : Recency K E := l.filter fun p => p.1 != key

def find (l : Recency K E) (key : K) : List E × Recency K E :=
  match l.lookup key with
  | none => ([], l)
  | some entry => ([entry], (key, entry) :: without l key)

def insert (limit : Nat) (l : Recency K E) (key : K) (entry : E) : List E × Recency K E :=
  if limit = 0 then ([entry], l)
  else match l.lookup key with
    | some _ => ([], (key, entry) :: without l key)
    | none =>
      if limit ≤ l.length then (l.getLast?.toList.map Prod.snd, (key, entry) :: l.dropLast)
      else ([], (key, entry) :: l)

def step (limit : Nat) (l : Recency K E) : Op K E → List E × Recency K E
  | .find key => find l key
  | .insert key entry => insert limit l key entry
  | .erase key => ((l.lookup key).toList, without l key)
  | .clear => (l.map Prod.snd, [])

theorem mem_without {l : Recency K E} {p : K × E} : p ∈ without l key ↔ p ∈ l ∧ p.1 ≠ key := by
  rw [without, List.mem_filter, bne_iff_ne]

theorem without_sublist (l : Recency K E) (key : K) : (without l key).Sublist l := List.filter_sublist

theorem without_of_absent {l : Recency K E} (h : ∀ p ∈ l, p.1 ≠ key) : without l key = l := by
  apply List.filter_eq_self.2
  intro p hp
  exact bne_iff_ne.2 (h p hp)

theorem lookup_without (l : Recency K E) (key other : K) :
    (without l key).lookup other = if other = key then none else l.lookup other := by
  induction l with
  | nil => simp [without]
  | cons p l ih =>
    rw [without] at ih
    by_cases hp : p.1 = key
    · rw [without, List.filter_cons_of_neg (by simp [hp]), ih, List.lookup_cons]
      by_cases ho : other = key
      · simp [ho]
      · rw [if_neg ho, if_neg ho, hp, beq_false_of_ne ho]
    · rw [without, List.filter_cons_of_pos (by simpa using hp), List.lookup_cons, List.lookup_cons, ih]
      by_cases ho : other = key
      · rw [if_pos ho, if_pos ho, ho, beq_false_of_ne (Ne.symm hp)]
      · rw [if_neg ho, if_neg ho]

theorem lookup_eq_none {l : Recency K E} : l.lookup key = none ↔ ∀ p ∈ l, p.1 ≠ key := by
  rw [List.lookup_eq_none_iff]
  constructor
  · intro h p hp heq
    simpa [heq] using h p hp
  · intro h p hp
    exact bne_iff_ne.2 (Ne.symm (h p hp))

theorem mem_of_lookup {l : Recency K E} (h : l.lookup key = some entry) : (key, entry) ∈ l := by
  obtain ⟨l₁, l₂, rfl, -⟩ := List.lookup_eq_some_iff.1 h
  exact List.mem_append_right _ (List.mem_cons_self ..)

theorem lookup_of_mem {l : Recency K E} (hk : (l.map Prod.fst).Nodup) (h : (key, entry) ∈ l) :
    l.lookup key = some entry := by
  cases hl : l.lookup key with
  | none => exact absurd rfl (lookup_eq_none.1 hl _ h)
  | some other =>
    have hsame := List.inj_on_of_nodup_map hk (mem_of_lookup hl) h rfl
    rw [(Prod.mk.inj hsame).2]

theorem lookup_map (f : E → F) (l : Recency K E) (key : K) :
    List.lookup key (l.map fun p => (p.1, f p.2)) = (l.lookup key).map f := by
  induction l with
  | nil => rfl
  | cons p l ih =>
    rw [List.map_cons, List.lookup_cons, List.lookup_cons, ih]
    split
    · rfl
    · rfl

theorem without_map (f : E → F) (l : Recency K E) (key : K) :
    without (l.map fun p => (p.1, f p.2)) key = (without l key).map fun p => (p.1, f p.2) := by
  rw [without, without, List.filter_map]
  rfl

theorem step_map (limit : Nat) (f : E → F) (l : Recency K E) (op : Op K E) :
    step limit (l.map fun p => (p.1, f p.2)) (op.map f) =
      ((step limit l op).1.map f, (step limit l op).2.map fun p => (p.1, f p.2)) := by
  cases op with
  | find key =>
    rw [Op.map, step, step, find, find, lookup_map, without_map]
    cases l.lookup key with
    | none => rfl
    | some entry => rfl
  | insert key entry =>
    rw [Op.map, step, step, insert, insert, lookup_map, without_map, List.length_map, List.getLast?_map,
      ← List.map_dropLast]
    by_cases h0 : limit = 0
    · simp [h0]
    · rw [if_neg h0, if_neg h0]
      cases l.lookup key with
      | some old => rfl
      | none =>
        dsimp only [Option.map_none]
        by_cases hfull : limit ≤ l.length
        · rw [if_pos hfull, if_pos hfull]
          cases l.getLast? with
          | none => rfl
          | some p => rfl
        · rw [if_neg hfull, if_neg hfull]
          rfl
  | erase key =>
    rw [Op.map, step, step, lookup_map, without_map]
    cases l.lookup key with
    | none => rfl
    | some entry => rfl
  | clear => simp [Op.map, step]

/-- The list is in the order of the uses. -/
structure Tracks (l : Recency K E) (u : Uses K E) : Prop where
  values : ∀ key, u.value key = l.lookup key
  order : l.Pairwise fun p q => u.last q.1 < u.last p.1
  past : ∀ p ∈ l, u.last p.1 < u.now

namespace Tracks
variable {l l' : Recency K E} {u u' : Uses K E}

theorem start : Tracks ([] : Recency K E) {} :=
  ⟨fun _ => rfl, List.Pairwise.nil, fun _ h => (nomatch h)⟩

theorem nodup (h : Tracks l u) : (l.map Prod.fst).Nodup := by
  apply List.Pairwise.map (R := fun p q : K × E => u.last q.1 < u.last p.1)
  · intro p q hlt heq
    rw [heq] at hlt
    exact Nat.lt_irrefl _ hlt
  · exact h.order

theorem mem_keys (h : Tracks l u) : key ∈ u.keys ↔ key ∈ l.map Prod.fst := by
  rw [Uses.keys, Set.mem_ofPred_eq, h.values]
  constructor
  · intro hs
    obtain ⟨entry, he⟩ := Option.isSome_iff_exists.1 hs
    exact List.mem_map_of_mem (mem_of_lookup he)
  · intro hm
    obtain ⟨p, hp, rfl⟩ := List.mem_map.1 hm
    rw [lookup_of_mem h.nodup hp]
    rfl

theorem ncard_keys (h : Tracks l u) : u.keys.ncard = l.length := by
  have hset : u.keys = ((l.map Prod.fst).toFinset : Set K) := by
    ext key
    rw [h.mem_keys, List.coe_toFinset, Set.mem_ofPred_eq]
  rw [hset, Set.ncard_coe_finset, List.toFinset_card_of_nodup h.nodup, List.length_map]

theorem sublist (h : Tracks l u) (hs : l'.Sublist l) (hv : ∀ key, u'.value key = l'.lookup key)
    (hlast : u'.last = u.last) (hnow : u'.now = u.now) : Tracks l' u' where
  values := hv
  order := by
    rw [hlast]
    exact h.order.sublist hs
  past p hp := by
    rw [hlast, hnow]
    exact h.past p (hs.subset hp)

theorem forget (h : Tracks l u) (key : K) : Tracks (without l key) (u.forget key) := by
  apply h.sublist (without_sublist l key)
  · intro other
    rw [lookup_without, Uses.value_forget, h.values]
  · rfl
  · rfl

theorem push (h : Tracks l u) (hnew : ∀ p ∈ l, p.1 ≠ key) (entry : E) : Tracks ((key, entry) :: l) (u.put key entry) where
  values other := by
    rw [List.lookup_cons, Uses.value_put, h.values]
    by_cases ho : other = key
    · simp [ho]
    · rw [if_neg ho, beq_false_of_ne ho]
  order := by
    apply List.Pairwise.cons
    · intro p hp
      have hpast := h.past p hp
      simpa [Uses.put, Uses.use, hnew p hp] using hpast
    · apply h.order.imp_of_mem
      intro p q hp hq hlt
      simpa [Uses.put, Uses.use, hnew p hp, hnew q hq] using hlt
  past p hp := by
    rcases List.mem_cons.1 hp with rfl | hp
    · simp [Uses.put, Uses.use]
    · have hpast := h.past p hp
      simpa [Uses.put, Uses.use, hnew p hp] using Nat.lt_succ_of_lt hpast

theorem oldest (h : Tracks (l ++ [p]) u) : u.Oldest p.1 := by
  intro other ho hne
  rw [h.mem_keys, List.map_append, List.mem_append] at ho
  rcases ho with ho | ho
  · obtain ⟨q, hq, rfl⟩ := List.mem_map.1 ho
    exact (List.pairwise_append.1 h.order).2.2 q hq p (List.mem_singleton.2 rfl)
  · rw [List.map_singleton, List.mem_singleton] at ho
    exact absurd ho hne

/-- The list does what the map does that gives up the key used least recently. -/
theorem step (h : Tracks l u) (hlen : l.length ≤ limit) (op : Op K E) :
    ∃ u', u.Step limit op (Recency.step limit l op).1 u' ∧ Tracks (Recency.step limit l op).2 u' := by
  cases op with
  | find key =>
    rw [Recency.step, find]
    cases hl : l.lookup key with
    | none => exact ⟨u, .miss ((h.values key).trans hl), h⟩
    | some entry =>
      have hv := (h.values key).trans hl
      refine ⟨u.use key, .hit hv, ?_⟩
      rw [← Uses.put_eq_use hv, ← Uses.put_forget]
      exact (h.forget key).push (fun p hp => (mem_without.1 hp).2) entry
  | insert key entry =>
    rw [Recency.step, insert]
    by_cases h0 : limit = 0
    · rw [if_pos h0]
      exact ⟨u, .refuse h0, h⟩
    · rw [if_neg h0]
      cases hl : l.lookup key with
      | some old =>
        refine ⟨u.put key entry, .replace ((h.values key).trans hl), ?_⟩
        rw [← Uses.put_forget]
        exact (h.forget key).push (fun p hp => (mem_without.1 hp).2) entry
      | none =>
        have hnew := lookup_eq_none.1 hl
        have hv := (h.values key).trans hl
        by_cases hfull : limit ≤ l.length
        · rw [if_pos hfull]
          have hne : l ≠ [] := List.ne_nil_of_length_pos (Nat.lt_of_lt_of_le (Nat.pos_of_ne_zero h0) hfull)
          have hsplit := List.dropLast_append_getLast hne
          have hout : l.getLast?.toList.map Prod.snd = [(l.getLast hne).2] := by
            rw [List.getLast?_eq_getLast_of_ne_nil hne]
            rfl
          have hvictim : l.lookup (l.getLast hne).1 = some (l.getLast hne).2 :=
            lookup_of_mem h.nodup (List.getLast_mem hne)
          have hdrop : without l (l.getLast hne).1 = l.dropLast := by
            have hnd := h.nodup
            rw [← hsplit, List.map_append, List.nodup_append] at hnd
            nth_rewrite 1 [← hsplit]
            rw [without, List.filter_append, List.filter_cons_of_neg (by simp), List.filter_nil, List.append_nil]
            apply without_of_absent
            intro p hp
            exact hnd.2.2 _ (List.mem_map_of_mem hp) _ (List.mem_singleton.2 rfl)
          rw [hout]
          refine ⟨(u.forget (l.getLast hne).1).put key entry, .evict hv ?_ ?_ ((h.values _).trans hvictim), ?_⟩
          · rw [h.ncard_keys]
            exact Nat.le_antisymm hlen hfull
          · apply oldest (l := l.dropLast)
            rw [hsplit]
            exact h
          · have htracks := h.forget (l.getLast hne).1
            rw [hdrop] at htracks
            exact htracks.push (fun p hp => hnew p ((List.dropLast_sublist l).subset hp)) entry
        · rw [if_neg hfull]
          refine ⟨u.put key entry, .add hv ?_, h.push hnew entry⟩
          rw [h.ncard_keys]
          exact Nat.lt_of_not_le hfull
  | erase key =>
    rw [Recency.step]
    cases hl : l.lookup key with
    | none =>
      refine ⟨u, .absent ((h.values key).trans hl), ?_⟩
      rw [without_of_absent (lookup_eq_none.1 hl)]
      exact h
    | some entry => exact ⟨u.forget key, .erase ((h.values key).trans hl), h.forget key⟩
  | clear =>
    have hout : (l.map Prod.fst).filterMap u.value = l.map Prod.snd := by
      rw [List.filterMap_map, ← List.filterMap_eq_map]
      apply List.filterMap_congr
      intro p hp
      rw [Function.comp_apply, h.values, lookup_of_mem h.nodup hp]
      rfl
    refine ⟨{ u with value := fun _ => none }, ?_, ?_⟩
    · rw [Recency.step, ← hout]
      exact .clear h.nodup fun key => h.mem_keys.symm
    · exact ⟨fun _ => rfl, List.Pairwise.nil, fun _ hp => (nomatch hp)⟩

end Tracks

end Recency

namespace Cache
variable {K E : Type} [DecidableEq K] {c : Cache K E} {key : K} {n : Node K E} {limit : Nat}

def recency (c : Cache K E) : Recency K E := c.lruList.map fun n => (n.key, n.entry)

omit [DecidableEq K] in
theorem Rep.same_key (h : c.Rep limit) (hn : n ∈ c.lruList) (hm : m ∈ c.lruList) (hk : m.key = n.key) : m = n := by
  have haddr := List.inj_on_of_nodup_map h.keys (h.listed m hm) (h.listed n hn) hk
  exact List.inj_on_of_nodup_map h.addrs hm hn (congrArg Prod.snd haddr)

omit [DecidableEq K] in
theorem Rep.nodup_keys (h : c.Rep limit) : (c.recency.map Prod.fst).Nodup := by
  have hmap : c.recency.map Prod.fst = c.lruList.map Node.key := by
    rw [recency, List.map_map]
    rfl
  rw [hmap]
  apply List.Nodup.map_on
  · intro m hm n hn hk
    exact h.same_key hn hm hk
  · exact List.Nodup.of_map _ h.addrs

theorem Rep.lookup (h : c.Rep limit) (key : K) : c.recency.lookup key = (c.find key).map Node.entry := by
  cases hf : c.find key with
  | some n =>
    have hm := (find_eq_some hf).2
    have hk := h.coherent.key_of_find hf
    rw [← hk]
    exact Recency.lookup_of_mem h.nodup_keys (List.mem_map_of_mem (f := fun n => (n.key, n.entry)) hm)
  | none =>
    apply Recency.lookup_eq_none.2
    intro p hp hk
    obtain ⟨n, hn, rfl⟩ := List.mem_map.1 hp
    have hsome : (c.address key).isSome := lookup_isSome.2 ⟨n.addr, hk ▸ h.listed n hn⟩
    obtain ⟨addr, ha⟩ := Option.isSome_iff_exists.1 hsome
    obtain ⟨m, hm, -⟩ := h.find ha
    rw [hf] at hm
    cases hm

theorem Rep.recency_filter (h : c.Rep limit) (hn : n ∈ c.lruList) :
    (c.lruList.filter fun m => m.addr != n.addr).map (fun n => (n.key, n.entry)) = Recency.without c.recency n.key := by
  rw [recency, Recency.without, List.filter_map]
  apply congrArg
  apply List.filter_congr
  intro m hm
  rw [Function.comp_apply, Bool.eq_iff_iff, bne_iff_ne, bne_iff_ne]
  constructor
  · intro hne hk
    exact hne (congrArg Node.addr (h.same_key hn hm hk))
  · intro hne ha
    exact hne (congrArg Node.key (List.inj_on_of_nodup_map h.addrs hm hn ha))

theorem Rep.recency_promote (h : c.Rep limit) (hn : n ∈ c.lruList) :
    (c.promote n).recency = (n.key, n.entry) :: Recency.without c.recency n.key := by
  rw [← h.recency_filter hn]
  rfl

theorem Rep.promote_perm (h : c.Rep limit) (hn : n ∈ c.lruList) : (c.promote n).lruList.Perm c.lruList := by
  have hnodup : c.lruList.Nodup := List.Nodup.of_map _ h.addrs
  have hmoved : (c.promote n).lruList.Nodup := List.Nodup.of_map _ (h.promote hn).addrs
  apply (List.perm_ext_iff_of_nodup hmoved hnodup).2
  intro m
  constructor
  · exact forall_promote (P := fun m => m ∈ c.lruList) (fun _ hm => hm) hn m
  · intro hm
    by_cases haddr : m.addr = n.addr
    · exact List.mem_cons.2 (.inl (List.inj_on_of_nodup_map h.addrs hm hn haddr))
    · exact List.mem_cons_of_mem _ (List.mem_filter.2 ⟨hm, bne_iff_ne.2 haddr⟩)

theorem Rep.recency_erase (h : c.Rep limit) (key : K) : (c.erase key).recency = Recency.without c.recency key := by
  rw [Cache.erase]
  split
  · next hnone =>
    apply (Recency.without_of_absent _).symm
    apply Recency.lookup_eq_none.1
    rw [h.lookup, Cache.find, hnone]
    rfl
  · next addr hl =>
    obtain ⟨n, hf, rfl⟩ := h.find hl
    rw [← h.coherent.key_of_find hf, ← h.recency_filter (find_eq_some hf).2]
    rfl

theorem find_erase_self (c : Cache K E) (key : K) : (c.erase key).find key = none := by
  rw [Cache.erase]
  split
  · next ha => rw [Cache.find, ha, Option.bind_none]
  · have hgone : (c.index.filter fun e => e.1 != key).lookup key = none := by
      apply List.lookup_eq_none_iff.2
      intro e he
      exact bne_iff_ne.2 (Ne.symm (bne_iff_ne.1 (List.mem_filter.1 he).2))
    rw [Cache.find, Cache.address]
    dsimp only
    rw [hgone, Option.bind_none]

theorem recency_evict (c : Cache K E) : c.evict.recency = c.recency.dropLast := by
  rw [evict]
  split
  · next hnone =>
    rw [recency, List.getLast?_eq_none_iff.1 hnone]
    rfl
  · rw [recency, recency, List.map_dropLast]

theorem recency_insert (c : Cache K E) (key : K) (entry : E) :
    (c.insert key entry).recency = (key, entry) :: c.recency := rfl

theorem Rep.recency_replace (h : c.Rep limit) (hn : n ∈ c.lruList) (entry : E) :
    ((c.update n.addr fun _ => entry).promote { n with entry := entry }).recency =
      (n.key, entry) :: Recency.without c.recency n.key := by
  rw [← h.recency_filter hn, recency, Cache.promote, Cache.update, List.map_cons, List.filter_map, List.map_map]
  apply congrArg
  have hsame : (fun m : Node K E => (if m.addr = n.addr then { m with entry := entry } else m).addr != n.addr) =
      fun m => m.addr != n.addr := by
    funext m
    split
    · rfl
    · rfl
  have hfilter : ((fun m : Node K E => m.addr != n.addr) ∘
      fun m : Node K E => if m.addr = n.addr then { m with entry := entry } else m) = fun m => m.addr != n.addr := hsame
  rw [hfilter]
  apply List.map_congr_left
  intro m hm
  rw [Function.comp_apply, if_neg (bne_iff_ne.1 (List.mem_filter.1 hm).2)]

end Cache

end Lru
