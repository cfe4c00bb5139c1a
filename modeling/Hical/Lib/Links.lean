import Mathlib.Data.List.Chain
import Mathlib.Data.List.Nodup
import Mathlib.Logic.Function.Basic

namespace Linked

/-- A node of a circular list that has a sentinel. -/
inductive Node (α : Type) where
  | sentinel
  | entry (a : α)
  deriving DecidableEq

theorem sentinel_ne (a : α) : Node.sentinel ≠ .entry a := nofun

/-- The pointers of an intrusive doubly linked list, `none` where they are null. -/
structure Links (α : Type) where
  next : Node α → Option (Node α)
  prev : Node α → Option (Node α)

def nodes (l : List α) : List (Node α) := l.map .entry ++ [.sentinel]

theorem entry_mem_nodes : Node.entry a ∈ nodes l ↔ a ∈ l := by
  simp [nodes]

theorem nodup_nodes {l : List α} (h : l.Nodup) : (nodes l).Nodup := by
  rw [nodes, List.nodup_append]
  refine ⟨h.map fun _ _ he => Node.entry.inj he, List.pairwise_singleton .., ?_⟩
  simp

theorem nodes_append (l l' : List α) : nodes (l ++ l') = l.map .entry ++ nodes l' := by
  rw [nodes, List.map_append, List.append_assoc, nodes]

namespace Links

def empty : Links α where
  next | .sentinel => some .sentinel | .entry _ => none
  prev | .sentinel => some .sentinel | .entry _ => none

/-- The entries from a node on, up to the sentinel. -/
def walk (r : Links α) : Nat → Option (Node α) → List α
  | n + 1, some (.entry a) => a :: r.walk n (r.next (.entry a))
  | _, _ => []

/-- The two nodes point to each other. -/
def Joined (r : Links α) (x y : Node α) : Prop := r.next x = some y ∧ r.prev y = some x

/-- The links hold these entries, in this order, and no others. -/
structure Holds (r : Links α) (l : List α) : Prop where
  chain : List.IsChain r.Joined (.sentinel :: nodes l)
  nodup : l.Nodup
  null : ∀ a ∉ l, r.next (.entry a) = none ∧ r.prev (.entry a) = none

theorem holds_empty : (empty : Links α).Holds [] :=
  ⟨List.isChain_pair.2 ⟨rfl, rfl⟩, List.nodup_nil, fun _ _ => ⟨rfl, rfl⟩⟩

variable {α : Type} {r : Links α} {l l' : List α} {a : α} {x y : Node α}

theorem Holds.first (h : r.Holds l) : ∃ x rest, nodes l = x :: rest ∧ r.next .sentinel = some x := by
  have hc := h.chain
  cases hn : nodes l with
  | nil => simp [nodes] at hn
  | cons x rest =>
    rw [hn] at hc
    exact ⟨x, rest, rfl, (List.isChain_cons_cons.1 hc).1.1⟩

theorem Holds.around (h : r.Holds (l ++ a :: l')) : ∃ p before n after,
    Node.sentinel :: l.map .entry = before ++ [p] ∧ nodes l' = n :: after ∧
      r.Joined p (.entry a) ∧ r.Joined (.entry a) n := by
  have hc := h.chain
  obtain ⟨before, p, hp⟩ : ∃ before p, Node.sentinel :: l.map .entry = before ++ [p] :=
    ⟨_, _, (List.dropLast_append_getLast (List.cons_ne_nil _ _)).symm⟩
  obtain ⟨n, after, hn⟩ : ∃ n after, nodes l' = n :: after := by
    cases hn : nodes l' with
    | nil => simp [nodes] at hn
    | cons n after => exact ⟨n, after, rfl⟩
  have hsplit : Node.sentinel :: nodes (l ++ a :: l') = before ++ p :: .entry a :: n :: after := by
    rw [nodes_append, ← List.cons_append, hp, List.append_assoc]
    change before ++ ([p] ++ .entry a :: nodes l') = _
    rw [hn]
    rfl
  rw [hsplit] at hc
  have hpa := List.isChain_iff_forall_rel_of_append_cons_cons.1 hc rfl
  have han : r.Joined (.entry a) n :=
    List.isChain_iff_forall_rel_of_append_cons_cons.1 (List.isChain_append.1 hc).2.1
      (show _ = [p] ++ _ :: _ :: _ from rfl)
  exact ⟨p, before, n, after, hp, hn, hpa, han⟩

theorem Holds.walk (h : r.Holds l) : r.walk (l.length + 1) (r.next .sentinel) = l := by
  have hwalk : ∀ (l : List α) (x : Node α), List.IsChain r.Joined (x :: nodes l) →
      r.walk (l.length + 1) (r.next x) = l := by
    intro l
    induction l with
    | nil =>
      intro x hc
      rw [(List.isChain_cons_cons.1 hc).1.1]
      rfl
    | cons a l ih =>
      intro x hc
      obtain ⟨hj, hc⟩ := List.isChain_cons_cons.1 hc
      rw [hj.1, Links.walk, List.length_cons, ih (.entry a) hc]
  exact hwalk l .sentinel h.chain

theorem Holds.next_iff_prev (h : r.Holds l) : r.next x = some y ↔ r.prev y = some x := by
  have hin : ∀ x ∈ Node.sentinel :: l.map .entry, ∃ y, r.Joined x y := by
    intro x hx
    obtain ⟨before, after, hsplit⟩ := List.append_of_mem hx
    have hall : Node.sentinel :: nodes l = before ++ x :: (after ++ [.sentinel]) := by
      rw [nodes, ← List.cons_append, hsplit, List.append_assoc, List.cons_append]
    cases hafter : after ++ [Node.sentinel (α := α)] with
    | nil => simp at hafter
    | cons y rest =>
      rw [hafter] at hall
      exact ⟨y, List.isChain_iff_forall_rel_of_append_cons_cons.1 h.chain hall⟩
  have hout : ∀ y ∈ nodes l, ∃ x, r.Joined x y := by
    intro y hy
    obtain ⟨before, after, hsplit⟩ := List.append_of_mem hy
    rcases List.eq_nil_or_concat (Node.sentinel :: before) with hnil | ⟨init, x, hx⟩
    · cases hnil
    · have hall : Node.sentinel :: nodes l = init ++ x :: y :: after := by
        rw [hsplit, ← List.cons_append, hx, List.concat_eq_append, List.append_assoc]
        rfl
      exact ⟨x, List.isChain_iff_forall_rel_of_append_cons_cons.1 h.chain hall⟩
  constructor
  · intro hxy
    have hx : x ∈ Node.sentinel :: l.map .entry := by
      cases x with
      | sentinel => exact List.mem_cons_self
      | entry a =>
        by_contra hmem
        have ha : a ∉ l := fun ha => hmem (List.mem_cons_of_mem _ (List.mem_map_of_mem ha))
        exact absurd ((h.null a ha).1.symm.trans hxy) nofun
    obtain ⟨y', hj⟩ := hin x hx
    rw [Option.some.inj (hxy.symm.trans hj.1)]
    exact hj.2
  · intro hyx
    have hy : y ∈ nodes l := by
      cases y with
      | sentinel => exact List.mem_append_right _ (List.mem_singleton_self _)
      | entry a =>
        by_contra hmem
        have ha : a ∉ l := fun ha => hmem (entry_mem_nodes.2 ha)
        exact absurd ((h.null a ha).2.symm.trans hyx) nofun
    obtain ⟨x', hj⟩ := hout y hy
    rw [Option.some.inj (hyx.symm.trans hj.2)]
    exact hj.1

section Edit
variable [DecidableEq α]

def setNext (r : Links α) (x : Node α) (y : Option (Node α)) : Links α :=
  { r with next := Function.update r.next x y }

def setPrev (r : Links α) (x : Node α) (y : Option (Node α)) : Links α :=
  { r with prev := Function.update r.prev x y }

def insert (r : Links α) (a : α) : Links α :=
  let r := r.setNext (.entry a) (r.next .sentinel)
  let r := r.setPrev (.entry a) (some .sentinel)
  let r := match r.next .sentinel with
    | some x => r.setPrev x (some (.entry a))
    | none => r
  r.setNext .sentinel (some (.entry a))

def remove (r : Links α) (a : α) : Links α :=
  let r := match r.prev (.entry a) with
    | some x => r.setNext x (r.next (.entry a))
    | none => r
  let r := match r.next (.entry a) with
    | some x => r.setPrev x (r.prev (.entry a))
    | none => r
  (r.setPrev (.entry a) none).setNext (.entry a) none

variable {z : Option (Node α)}

@[simp] theorem setNext_next_self : (r.setNext x z).next x = z := Function.update_self ..

@[simp] theorem setPrev_prev_self : (r.setPrev x z).prev x = z := Function.update_self ..

theorem setNext_next (h : y ≠ x) : (r.setNext x z).next y = r.next y := Function.update_of_ne h ..

theorem setPrev_prev (h : y ≠ x) : (r.setPrev x z).prev y = r.prev y := Function.update_of_ne h ..

@[simp] theorem setNext_prev : (r.setNext x z).prev = r.prev := rfl

@[simp] theorem setPrev_next : (r.setPrev x z).next = r.next := rfl

theorem insert_eq (h : r.next .sentinel = some x) :
    r.insert a = (((r.setNext (.entry a) (some x)).setPrev (.entry a) (some .sentinel)).setPrev x
      (some (.entry a))).setNext .sentinel (some (.entry a)) := by
  have hs : (r.setNext (.entry a) (some x)).next .sentinel = some x := by
    rw [setNext_next (sentinel_ne a), h]
  unfold insert
  simp only [h, setPrev_next, hs]

theorem remove_eq (hp : r.prev (.entry a) = some x) (hn : r.next (.entry a) = some y)
    (hx : x ≠ .entry a) :
    r.remove a = (((r.setNext x (some y)).setPrev y (some x)).setPrev (.entry a) none).setNext
      (.entry a) none := by
  have hs : (r.setNext x (some y)).next (.entry a) = some y := by
    rw [setNext_next hx.symm, hn]
  unfold remove
  simp only [hp, hn, hs, setNext_prev]

theorem Holds.insert (h : r.Holds l) (ha : a ∉ l) : (r.insert a).Holds (a :: l) := by
  obtain ⟨n, rest, hn, hnext⟩ := h.first
  have hnodup := nodup_nodes h.nodup
  have hentry : Node.entry a ∉ nodes l := fun hmem => ha (entry_mem_nodes.1 hmem)
  have hchain := h.chain
  rw [hn] at hnodup hentry hchain
  have hna : n ≠ .entry a := fun he => hentry (he ▸ List.mem_cons_self)
  have hnot : n ∉ rest := (List.nodup_cons.1 hnodup).1
  have hsa : Node.entry a ≠ .sentinel := (sentinel_ne a).symm
  rw [insert_eq hnext]
  refine ⟨?_, List.nodup_cons.2 ⟨ha, h.nodup⟩, ?_⟩
  · change List.IsChain _ (.sentinel :: .entry a :: nodes l)
    rw [hn, List.isChain_cons_cons, List.isChain_cons_cons]
    refine ⟨⟨setNext_next_self, ?_⟩, ⟨?_, setPrev_prev_self⟩, ?_⟩
    · rw [setNext_prev, setPrev_prev hna.symm, setPrev_prev_self]
    · rw [setNext_next hsa, setPrev_next, setPrev_next, setNext_next_self]
    · refine List.IsChain.imp_of_mem_tail_imp ?_ (List.isChain_cons_cons.1 hchain).2
      rintro x y hx hy ⟨hxy, hyx⟩
      have hyn : y ≠ n := fun he => hnot (he ▸ hy)
      refine ⟨?_, ?_⟩
      · rw [setNext_next, setPrev_next, setPrev_next, setNext_next, hxy]
        · exact fun he => hentry (he ▸ hx)
        · rintro rfl
          exact hyn (Option.some.inj (hxy.symm.trans hnext))
      · rw [setNext_prev, setPrev_prev hyn, setPrev_prev, setNext_prev, hyx]
        exact fun he => hentry (he ▸ List.mem_of_mem_tail hy)
  · intro b hb
    have hb' : b ∉ l := List.not_mem_of_not_mem_cons hb
    have hne : Node.entry b ≠ .entry a := fun he => List.ne_of_not_mem_cons hb (Node.entry.inj he)
    have hbn : Node.entry b ≠ n := by
      rintro rfl
      exact hb' (entry_mem_nodes.1 (hn ▸ List.mem_cons_self))
    refine ⟨?_, ?_⟩
    · rw [setNext_next (sentinel_ne b).symm, setPrev_next, setPrev_next, setNext_next hne, (h.null b hb').1]
    · rw [setNext_prev, setPrev_prev hbn, setPrev_prev hne, setNext_prev, (h.null b hb').2]

theorem Holds.remove (h : r.Holds (l ++ a :: l')) : (r.remove a).Holds (l ++ l') := by
  obtain ⟨p, before, n, after, hp, hn, hjp, hjn⟩ := h.around
  have hsplit : Node.sentinel :: nodes (l ++ a :: l') =
      (Node.sentinel :: l.map .entry) ++ .entry a :: nodes l' := by
    rw [nodes_append]
    rfl
  have hchain := h.chain
  rw [hsplit] at hchain
  obtain ⟨hleft, hright, -⟩ := List.isChain_append.1 hchain
  obtain ⟨hnodup, hnodup', hdisj⟩ := List.nodup_append.1 h.nodup
  have hal : a ∉ l := fun hmem => hdisj a hmem a List.mem_cons_self rfl
  have hal' : a ∉ l' := (List.nodup_cons.1 hnodup').1
  have hleftne : ∀ x ∈ Node.sentinel :: l.map .entry, x ≠ .entry a := by
    rintro x hx rfl
    have hmem := (List.mem_cons.1 hx).resolve_left (sentinel_ne a).symm
    obtain ⟨b, hb, he⟩ := List.mem_map.1 hmem
    cases he
    exact hal hb
  have hrightne : ∀ x ∈ nodes l', x ≠ .entry a := by
    rintro x hx rfl
    exact hal' (entry_mem_nodes.1 hx)
  have hpa : p ≠ .entry a := hleftne p (hp ▸ List.mem_append_right _ (List.mem_singleton_self _))
  have hna : n ≠ .entry a := hrightne n (hn ▸ List.mem_cons_self)
  rw [remove_eq hjp.2 hjn.1 hpa]
  generalize hr' : ((((r.setNext p (some n)).setPrev n (some p)).setPrev (.entry a) none).setNext
    (.entry a) none) = r'
  -- the entries on either side of the gap are not the two that are joined over it
  have hkeep : ∀ x y, x ≠ .entry a → y ≠ .entry a → r.Joined x y → r'.Joined x y := by
    rintro x y hx hy ⟨hxy, hyx⟩
    have hxp : x ≠ p := by
      rintro rfl
      exact hy (Option.some.inj (hxy.symm.trans hjp.1))
    have hyn : y ≠ n := by
      rintro rfl
      exact hx (Option.some.inj (hyx.symm.trans hjn.2))
    subst hr'
    refine ⟨?_, ?_⟩
    · rw [setNext_next hx, setPrev_next, setPrev_next, setNext_next hxp, hxy]
    · rw [setNext_prev, setPrev_prev hy, setPrev_prev hyn, setNext_prev, hyx]
  have hseam : r'.Joined p n := by
    subst hr'
    refine ⟨?_, ?_⟩
    · rw [setNext_next hpa, setPrev_next, setPrev_next, setNext_next_self]
    · rw [setNext_prev, setPrev_prev hna, setPrev_prev_self]
  refine ⟨?_, ?_, ?_⟩
  · rw [nodes_append, ← List.cons_append, List.isChain_append]
    refine ⟨?_, ?_, ?_⟩
    · exact hleft.imp_of_mem_imp fun x y hx hy => hkeep x y (hleftne x hx) (hleftne y hy)
    · exact hright.tail.imp_of_mem_imp fun x y hx hy => hkeep x y (hrightne x hx) (hrightne y hy)
    · rw [hp, hn, List.getLast?_concat, List.head?_cons]
      rintro x hx y hy
      cases hx
      cases hy
      exact hseam
  · exact List.nodup_append.2 ⟨hnodup, (List.nodup_cons.1 hnodup').2,
      fun x hx y hy => hdisj x hx y (List.mem_cons_of_mem _ hy)⟩
  · intro b hb
    subst hr'
    by_cases hba : b = a
    · subst hba
      exact ⟨setNext_next_self, by rw [setNext_prev, setPrev_prev_self]⟩
    · have hb' : b ∉ l ++ a :: l' := by
        simp only [List.mem_append, List.mem_cons, not_or] at hb ⊢
        exact ⟨hb.1, hba, hb.2⟩
      have hne : Node.entry b ≠ .entry a := fun he => hba (Node.entry.inj he)
      have hbp : Node.entry b ≠ p := by
        rintro rfl
        exact absurd ((h.null b hb').1.symm.trans hjp.1) nofun
      have hbn : Node.entry b ≠ n := by
        rintro rfl
        exact absurd ((h.null b hb').2.symm.trans hjn.2) nofun
      refine ⟨?_, ?_⟩
      · rw [setNext_next hne, setPrev_next, setPrev_next, setNext_next hbp, (h.null b hb').1]
      · rw [setNext_prev, setPrev_prev hne, setPrev_prev hbn, setNext_prev, (h.null b hb').2]

end Edit

end Links

end Linked
