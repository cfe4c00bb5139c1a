import Mathlib.Data.List.Nodup
import Mathlib.Data.List.Perm.Subperm

/-! A cache that evicts what was used least recently: a list of nodes, the most recent first, and an
index from the keys to the nodes, which are named by their addresses. -/

namespace Lru

structure Node (K E : Type) where
  addr : Nat
  key : K
  entry : E

structure Cache (K E : Type) where
  lruList : List (Node K E) := []
  index : List (K × Nat) := []
  made : Nat := 0

namespace Cache
variable {K E : Type} [DecidableEq K]

def node (c : Cache K E) (addr : Nat) : Option (Node K E) := c.lruList.find? fun n => n.addr == addr

def address (c : Cache K E) (key : K) : Option Nat := c.index.lookup key

def find (c : Cache K E) (key : K) : Option (Node K E) := (c.address key).bind c.node

def promote (c : Cache K E) (n : Node K E) : Cache K E :=
  { c with lruList := n :: c.lruList.filter fun m => m.addr != n.addr }

def update (c : Cache K E) (addr : Nat) (f : E → E) : Cache K E :=
  { c with lruList := c.lruList.map fun n => if n.addr = addr then { n with entry := f n.entry } else n }

def erase (c : Cache K E) (key : K) : Cache K E :=
  match c.address key with
  | none => c
  | some addr =>
    { c with lruList := c.lruList.filter (fun n => n.addr != addr), index := c.index.filter fun e => e.1 != key }

def evict (c : Cache K E) : Cache K E :=
  match c.lruList.getLast? with
  | none => c
  | some victim =>
    { c with lruList := c.lruList.dropLast, index := c.index.filter fun e => e.1 != victim.key }

def makeRoom (c : Cache K E) (limit : Nat) : Cache K E := if limit ≤ c.index.length then c.evict else c

def insert (c : Cache K E) (key : K) (entry : E) : Cache K E where
  lruList := ⟨c.made, key, entry⟩ :: c.lruList
  index := if (c.address key).isSome then c.index else (key, c.made) :: c.index
  made := c.made + 1

/-- List and index are in bijection, and not too large. -/
structure Rep (limit : Nat) (c : Cache K E) : Prop where
  addrs : (c.lruList.map Node.addr).Nodup
  below : ∀ n ∈ c.lruList, n.addr < c.made
  keys : (c.index.map Prod.fst).Nodup
  listed : ∀ n ∈ c.lruList, (n.key, n.addr) ∈ c.index
  indexed : ∀ e ∈ c.index, ∃ n ∈ c.lruList, n.key = e.1 ∧ n.addr = e.2
  listBound : c.lruList.length ≤ limit
  indexBound : c.index.length ≤ limit

/-- An entry of the index leads to no node of another key. -/
structure Coherent (c : Cache K E) : Prop where
  below : ∀ n ∈ c.lruList, n.addr < c.made
  indexBelow : ∀ e ∈ c.index, e.2 < c.made
  agrees : ∀ e ∈ c.index, ∀ n ∈ c.lruList, n.addr = e.2 → n.key = e.1

section Lookup
variable {c : Cache K E} {key : K} {n : Node K E} {addr : Nat}

theorem mem_of_lookup {index : List (K × Nat)} (h : index.lookup key = some addr) : (key, addr) ∈ index := by
  obtain ⟨l₁, l₂, rfl, -⟩ := List.lookup_eq_some_iff.1 h
  exact List.mem_append_right _ (List.mem_cons_self ..)

theorem lookup_isSome {index : List (K × Nat)} : (index.lookup key).isSome = true ↔ ∃ addr, (key, addr) ∈ index := by
  rw [← not_iff_not, Bool.not_eq_true, Option.isSome_eq_false_iff, Option.isNone_iff_eq_none,
    List.lookup_eq_none_iff]
  constructor
  · rintro h ⟨addr, hm⟩
    simpa using h _ hm
  · intro h e he
    refine bne_iff_ne.2 fun heq => h ⟨e.2, ?_⟩
    rw [heq]
    exact he

theorem find_eq_some (h : c.find key = some n) : c.address key = some n.addr ∧ n ∈ c.lruList := by
  rw [find, Option.bind_eq_some_iff] at h
  obtain ⟨addr, hl, hn⟩ := h
  have haddr := List.find?_some hn
  rw [beq_iff_eq] at haddr
  exact ⟨haddr ▸ hl, List.mem_of_find?_eq_some hn⟩

theorem Coherent.key_of_find (hc : c.Coherent) (h : c.find key = some n) : n.key = key := by
  obtain ⟨hl, hm⟩ := find_eq_some h
  exact hc.agrees _ (mem_of_lookup hl) n hm rfl

end Lookup

section Entries
variable {c : Cache K E} {key : K} {n : Node K E} {addr limit : Nat} {P : Node K E → Prop}

theorem forall_promote (h : ∀ n ∈ c.lruList, P n) (hn : n ∈ c.lruList) : ∀ m ∈ (c.promote n).lruList, P m := by
  intro m hm
  rcases List.mem_cons.1 hm with rfl | hm
  · exact h m hn
  · exact h m (List.mem_filter.1 hm).1

theorem forall_update {f : E → E} (h : ∀ n ∈ c.lruList, P n) (hf : ∀ n, P n → P { n with entry := f n.entry }) :
    ∀ m ∈ (c.update addr f).lruList, P m := by
  intro m hm
  obtain ⟨n, hn, rfl⟩ := List.mem_map.1 hm
  split
  · exact hf n (h n hn)
  · exact h n hn

theorem erase_sublist : (c.erase key).lruList.Sublist c.lruList ∧ (c.erase key).index.Sublist c.index := by
  rw [erase]
  split
  · exact ⟨.refl _, .refl _⟩
  · exact ⟨List.filter_sublist, List.filter_sublist⟩

theorem evict_sublist : c.evict.lruList.Sublist c.lruList ∧ c.evict.index.Sublist c.index := by
  rw [evict]
  split
  · exact ⟨.refl _, .refl _⟩
  · exact ⟨List.dropLast_sublist _, List.filter_sublist⟩

theorem makeRoom_sublist : (c.makeRoom limit).lruList.Sublist c.lruList ∧
    (c.makeRoom limit).index.Sublist c.index := by
  rw [makeRoom]
  split
  · exact evict_sublist
  · exact ⟨.refl _, .refl _⟩

theorem erase_made : (c.erase key).made = c.made := by
  rw [erase]
  split
  · rfl
  · rfl

theorem makeRoom_made : (c.makeRoom limit).made = c.made := by
  rw [makeRoom, evict]
  split
  · split
    · rfl
    · rfl
  · rfl

theorem forall_insert {entry : E} (h : ∀ n ∈ c.lruList, P n) (hn : P ⟨c.made, key, entry⟩) :
    ∀ m ∈ (c.insert key entry).lruList, P m := by
  intro m hm
  rcases List.mem_cons.1 hm with rfl | hm
  · exact hn
  · exact h m hm

end Entries

section Agreement
variable {c c' : Cache K E} {key : K} {n : Node K E} {addr limit : Nat}

theorem coherent_empty : (({} : Cache K E)).Coherent :=
  ⟨fun _ h => (nomatch h), fun _ h => (nomatch h), fun _ h => (nomatch h)⟩

theorem Coherent.sub (h : c.Coherent) (hl : c'.lruList ⊆ c.lruList) (hi : c'.index ⊆ c.index)
    (hm : c'.made = c.made) : c'.Coherent where
  below n hn := hm ▸ h.below n (hl hn)
  indexBelow e he := hm ▸ h.indexBelow e (hi he)
  agrees e he n hn := h.agrees e (hi he) n (hl hn)

theorem Coherent.promote (h : c.Coherent) (hn : n ∈ c.lruList) : (c.promote n).Coherent := by
  refine h.sub (fun m hm => ?_) (fun _ he => he) rfl
  rcases List.mem_cons.1 hm with rfl | hm
  · exact hn
  · exact (List.mem_filter.1 hm).1

theorem Coherent.update (h : c.Coherent) (addr : Nat) (f : E → E) : (c.update addr f).Coherent where
  below := forall_update h.below fun _ hn => hn
  indexBelow := h.indexBelow
  agrees e he := forall_update (h.agrees e he) fun _ hn => hn

theorem Coherent.erase (h : c.Coherent) (key : K) : (c.erase key).Coherent :=
  h.sub erase_sublist.1.subset erase_sublist.2.subset erase_made

theorem Coherent.makeRoom (h : c.Coherent) (limit : Nat) : (c.makeRoom limit).Coherent :=
  h.sub makeRoom_sublist.1.subset makeRoom_sublist.2.subset makeRoom_made

theorem Coherent.insert (h : c.Coherent) (key : K) (entry : E) : (c.insert key entry).Coherent := by
  have hmem : ∀ e ∈ (c.insert key entry).index, e ∈ c.index ∨ e = (key, c.made) := by
    intro e he
    rw [Cache.insert] at he
    dsimp only at he
    split at he
    · exact .inl he
    · exact (List.mem_cons.1 he).symm.imp id id
  refine ⟨forall_insert (fun n hn => Nat.lt_succ_of_lt (h.below n hn)) (Nat.lt_succ_self _), fun e he => ?_,
    fun e he n hn haddr => ?_⟩
  · rcases hmem e he with he | rfl
    · exact Nat.lt_succ_of_lt (h.indexBelow e he)
    · exact Nat.lt_succ_self _
  · rcases hmem e he with he | rfl
    · rcases List.mem_cons.1 hn with rfl | hn
      · exact absurd haddr (Nat.ne_of_gt (h.indexBelow e he))
      · exact h.agrees e he n hn haddr
    · rcases List.mem_cons.1 hn with rfl | hn
      · rfl
      · exact absurd haddr (Nat.ne_of_lt (h.below n hn))

end Agreement

section Representation
variable {c : Cache K E} {key : K} {n : Node K E} {addr limit : Nat}

theorem rep_empty (limit : Nat) : ({} : Cache K E).Rep limit :=
  ⟨List.nodup_nil, fun _ h => (nomatch h), List.nodup_nil, fun _ h => (nomatch h), fun _ h => (nomatch h),
    Nat.zero_le _, Nat.zero_le _⟩

theorem Rep.coherent (h : c.Rep limit) : c.Coherent where
  below := h.below
  indexBelow e he := by
    obtain ⟨n, hn, -, haddr⟩ := h.indexed e he
    exact haddr ▸ h.below n hn
  agrees e he n hn haddr := by
    obtain ⟨m, hm, hkey, hm'⟩ := h.indexed e he
    have hsame : n = m := List.inj_on_of_nodup_map h.addrs hn hm (haddr.trans hm'.symm)
    rw [hsame, hkey]

theorem Rep.find (h : c.Rep limit) (hl : c.address key = some addr) :
    ∃ n, c.find key = some n ∧ n.addr = addr := by
  obtain ⟨n, hn, -, haddr⟩ := h.indexed _ (mem_of_lookup hl)
  have hfound : (c.node addr).isSome := List.find?_isSome.2 ⟨n, hn, by simpa using haddr⟩
  obtain ⟨m, hm⟩ := Option.isSome_iff_exists.1 hfound
  refine ⟨m, ?_, by simpa using List.find?_some hm⟩
  rw [Cache.find, hl, Option.bind_some, hm]

theorem Rep.promote (h : c.Rep limit) (hn : n ∈ c.lruList) : (c.promote n).Rep limit := by
  have hother : (c.lruList.filter fun m => m.addr != n.addr).Sublist c.lruList := List.filter_sublist
  have hlist : ∀ m, m ∈ (c.promote n).lruList ↔ m ∈ c.lruList := by
    intro m
    constructor
    · intro hm
      rcases List.mem_cons.1 hm with rfl | hm
      · exact hn
      · exact hother.subset hm
    · intro hm
      by_cases haddr : m.addr = n.addr
      · exact List.mem_cons.2 (.inl (List.inj_on_of_nodup_map h.addrs hm hn haddr))
      · exact List.mem_cons_of_mem _ (List.mem_filter.2 ⟨hm, bne_iff_ne.2 haddr⟩)
  refine ⟨?_, fun m hm => h.below m ((hlist m).1 hm), h.keys, fun m hm => h.listed m ((hlist m).1 hm),
    fun e he => ?_, ?_, h.indexBound⟩
  · refine List.nodup_cons.2 ⟨fun hin => ?_, h.addrs.sublist (hother.map _)⟩
    obtain ⟨m, hm, haddr⟩ := List.mem_map.1 hin
    exact bne_iff_ne.1 (List.mem_filter.1 hm).2 haddr
  · obtain ⟨m, hm, hkey, haddr⟩ := h.indexed e he
    exact ⟨m, (hlist m).2 hm, hkey, haddr⟩
  · refine Nat.le_trans (Nat.succ_le_of_lt ?_) h.listBound
    exact List.length_filter_lt_length_iff_exists.2 ⟨n, hn, by simp⟩

theorem Rep.update (h : c.Rep limit) (addr : Nat) (f : E → E) : (c.update addr f).Rep limit := by
  have haddrs : (c.update addr f).lruList.map Node.addr = c.lruList.map Node.addr := by
    rw [Cache.update, List.map_map]
    refine List.map_congr_left fun n _ => ?_
    rw [Function.comp_apply]
    split
    · rfl
    · rfl
  refine ⟨haddrs ▸ h.addrs, forall_update h.below fun _ hn => hn, h.keys,
    forall_update h.listed fun _ hn => hn, fun e he => ?_, ?_, h.indexBound⟩
  · obtain ⟨n, hn, hkey, haddr⟩ := h.indexed e he
    refine ⟨_, List.mem_map_of_mem hn, ?_, ?_⟩
    · split
      · exact hkey
      · exact hkey
    · split
      · exact haddr
      · exact haddr
  · rw [Cache.update, List.length_map]
    exact h.listBound

theorem Rep.remove (h : c.Rep limit) (hn : n ∈ c.lruList) (nodes : List (Node K E))
    (hsub : nodes.Sublist c.lruList) (hmem : ∀ m, m ∈ nodes ↔ m ∈ c.lruList ∧ m.addr ≠ n.addr) :
    Rep limit { c with lruList := nodes, index := c.index.filter fun e => e.1 != n.key } := by
  refine ⟨h.addrs.sublist (hsub.map _), fun m hm => h.below m (hsub.subset hm),
    h.keys.sublist (List.filter_sublist.map _), fun m hm => ?_, fun e he => ?_,
    Nat.le_trans hsub.length_le h.listBound, Nat.le_trans (List.length_filter_le ..) h.indexBound⟩
  · obtain ⟨hm, haddr⟩ := (hmem m).1 hm
    refine List.mem_filter.2 ⟨h.listed m hm, bne_iff_ne.2 fun hkey => haddr ?_⟩
    have hsame := List.inj_on_of_nodup_map h.keys (h.listed m hm) (h.listed n hn) hkey
    exact congrArg Prod.snd hsame
  · obtain ⟨he, hkey⟩ := List.mem_filter.1 he
    obtain ⟨m, hm, hmkey, haddr⟩ := h.indexed e he
    refine ⟨m, (hmem m).2 ⟨hm, fun hsame => bne_iff_ne.1 hkey ?_⟩, hmkey, haddr⟩
    rw [← hmkey, List.inj_on_of_nodup_map h.addrs hm hn hsame]

theorem Rep.erase (h : c.Rep limit) (key : K) : (c.erase key).Rep limit := by
  rw [Cache.erase]
  split
  · exact h
  · next addr hl =>
    obtain ⟨n, hn, hkey, haddr⟩ := h.indexed _ (mem_of_lookup hl)
    have hkey : n.key = key := hkey
    have haddr : n.addr = addr := haddr
    rw [← hkey, ← haddr]
    refine h.remove hn _ List.filter_sublist fun m => ?_
    rw [List.mem_filter, bne_iff_ne]

theorem Rep.evict (h : c.Rep limit) : c.evict.Rep limit := by
  rw [Cache.evict]
  split
  · exact h
  · next victim hv =>
    have hsplit := List.dropLast_append_getLast? victim hv
    refine h.remove (List.mem_of_getLast? hv) _ (List.dropLast_sublist _) fun m => ?_
    have haddrs := h.addrs
    rw [← hsplit, List.map_append, List.nodup_append] at haddrs
    constructor
    · intro hm
      refine ⟨(List.dropLast_sublist _).subset hm, ?_⟩
      exact haddrs.2.2 _ (List.mem_map_of_mem hm) _ (List.mem_singleton.2 rfl)
    · rintro ⟨hm, hne⟩
      rw [← hsplit] at hm
      rcases List.mem_append.1 hm with hm | hm
      · exact hm
      · rw [List.mem_singleton.1 hm] at hne
        exact absurd rfl hne

theorem Rep.length_le (h : c.Rep limit) : c.lruList.length ≤ c.index.length := by
  have hsub : c.lruList.map Node.addr ⊆ c.index.map Prod.snd := by
    intro addr haddr
    obtain ⟨n, hn, rfl⟩ := List.mem_map.1 haddr
    exact List.mem_map.2 ⟨_, h.listed n hn, rfl⟩
  simpa using (List.subperm_of_subset h.addrs hsub).length_le

theorem Rep.makeRoom (h : c.Rep limit) (hpos : 0 < limit) :
    (c.makeRoom limit).Rep limit ∧ (c.makeRoom limit).lruList.length < limit ∧
      (c.makeRoom limit).index.length < limit := by
  rw [Cache.makeRoom]
  split
  · next hfull =>
    obtain ⟨e, he⟩ := List.exists_mem_of_length_pos (Nat.lt_of_lt_of_le hpos hfull)
    obtain ⟨n, hn, -⟩ := h.indexed e he
    refine ⟨h.evict, ?_⟩
    rw [Cache.evict]
    cases hv : c.lruList.getLast? with
    | none =>
      rw [List.getLast?_eq_none_iff.1 hv] at hn
      cases hn
    | some victim =>
      have hlisted := h.listed victim (List.mem_of_getLast? hv)
      constructor
      · refine Nat.lt_of_lt_of_le ?_ h.listBound
        rw [List.length_dropLast]
        exact Nat.sub_lt (List.length_pos_of_mem hn) Nat.one_pos
      · refine Nat.lt_of_lt_of_le ?_ h.indexBound
        exact List.length_filter_lt_length_iff_exists.2 ⟨_, hlisted, by simp⟩
  · next hroom =>
    have hroom := Nat.lt_of_not_le hroom
    exact ⟨h, Nat.lt_of_le_of_lt h.length_le hroom, hroom⟩

theorem Rep.insert (h : c.Rep limit) (hl : c.lruList.length < limit) (hi : c.index.length < limit) (entry : E)
    (hkey : c.address key = none) : (c.insert key entry).Rep limit := by
  have hindex : (c.insert key entry).index = (key, c.made) :: c.index := by
    rw [Cache.insert, hkey]
    rfl
  have hnew : ∀ addr, (key, addr) ∉ c.index := by
    intro addr hin
    have hsome : (c.address key).isSome = true := lookup_isSome.2 ⟨addr, hin⟩
    rw [hkey] at hsome
    cases hsome
  refine ⟨?_, forall_insert (fun n hn => Nat.lt_succ_of_lt (h.below n hn)) (Nat.lt_succ_self _), ?_,
    forall_insert (fun n hn => ?_) ?_, fun e he => ?_, hl, ?_⟩
  · refine List.nodup_cons.2 ⟨fun hin => ?_, h.addrs⟩
    obtain ⟨n, hn, haddr⟩ := List.mem_map.1 hin
    exact Nat.lt_irrefl _ (haddr ▸ h.below n hn)
  · rw [hindex]
    refine List.nodup_cons.2 ⟨fun hin => ?_, h.keys⟩
    obtain ⟨e, he, hek⟩ := List.mem_map.1 hin
    have hek : e.1 = key := hek
    exact hnew e.2 (hek ▸ he)
  · rw [hindex]
    exact List.mem_cons_of_mem _ (h.listed n hn)
  · rw [hindex]
    exact List.mem_cons_self ..
  · rw [hindex] at he
    rcases List.mem_cons.1 he with rfl | he
    · exact ⟨_, List.mem_cons_self .., rfl, rfl⟩
    · obtain ⟨n, hn, hnk, haddr⟩ := h.indexed e he
      exact ⟨n, List.mem_cons_of_mem _ hn, hnk, haddr⟩
  · rw [hindex]
    exact hi

theorem Rep.not_rep_insert (h : c.Rep limit) (entry : E) (hkey : (c.address key).isSome) :
    ¬ (c.insert key entry).Rep limit' := by
  intro h'
  have hlisted := h'.listed ⟨c.made, key, entry⟩ (List.mem_cons_self ..)
  rw [Cache.insert] at hlisted
  dsimp only at hlisted
  rw [hkey, if_pos rfl] at hlisted
  exact Nat.lt_irrefl _ (h.coherent.indexBelow _ hlisted)

end Representation

end Cache

end Lru
