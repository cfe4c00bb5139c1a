import Mathlib.Data.Finset.Sort
import Mathlib.Data.List.Chain

/-! Taking turns: the members of a finite set of a linear order, served one after the other. -/

namespace Cyclic

variable {α : Type} [LinearOrder α]

/-- The first member behind `x`, else the first one. -/
structure Next (S : Finset α) (x y : α) : Prop where
  mem : y ∈ S
  first : (x < y ∧ ∀ z ∈ S, x < z → y ≤ z) ∨ ((∀ z ∈ S, z ≤ x) ∧ ∀ z ∈ S, y ≤ z)

/-- The members in the order in which they are served behind `x`. -/
def turns (S : Finset α) (x : α) : List α :=
  S.sort.filter (fun z => decide (x < z)) ++ S.sort.filter (fun z => decide (z ≤ x))

theorem turns_perm (S : Finset α) (x : α) : (turns S x).Perm S.sort := by
  have h : S.sort.filter (fun z => decide (z ≤ x)) = S.sort.filter (fun z => !decide (x < z)) := by
    apply List.filter_congr
    intro z _
    rw [← decide_not]
    exact decide_eq_decide.2 not_lt.symm
  rw [turns, h]
  exact List.filter_append_perm _ _

theorem length_turns (S : Finset α) (x : α) : (turns S x).length = S.card := by
  rw [(turns_perm S x).length_eq, Finset.length_sort]

theorem sort_split (S : Finset α) (hy : y ∈ S) :
    ∃ a b, S.sort = a ++ y :: b ∧ (∀ z ∈ a, z < y) ∧ ∀ z ∈ b, y < z := by
  obtain ⟨a, b, hab⟩ := List.append_of_mem ((Finset.mem_sort (· ≤ ·)).2 hy)
  have hsorted := S.sortedLT_sort.pairwise
  rw [hab] at hsorted
  obtain ⟨-, hb, hlt⟩ := List.pairwise_append.1 hsorted
  exact ⟨a, b, hab, fun z hz => hlt z hz y List.mem_cons_self, (List.pairwise_cons.1 hb).1⟩

theorem filter_none (p : α → Prop) [DecidablePred p] (l : List α) (h : ∀ z ∈ l, ¬p z) :
    l.filter (fun z => decide (p z)) = [] :=
  List.filter_eq_nil_iff.2 fun z hz hd => h z hz (of_decide_eq_true hd)

theorem filter_all (p : α → Prop) [DecidablePred p] (l : List α) (h : ∀ z ∈ l, p z) :
    l.filter (fun z => decide (p z)) = l :=
  List.filter_eq_self.2 fun z hz => decide_eq_true (h z hz)

theorem turns_split {S : Finset α} {y : α} (hab : S.sort = a ++ y :: b) (ha : ∀ z ∈ a, z < y)
    (hb : ∀ z ∈ b, y < z) : turns S y = b ++ (a ++ [y]) := by
  rw [turns, hab, List.filter_append, List.filter_append, List.filter_cons, List.filter_cons,
    if_neg (by simp), if_pos (by simp), filter_none (y < ·) a fun z hz => (ha z hz).asymm,
    filter_all (y < ·) b hb, filter_all (· ≤ y) a fun z hz => (ha z hz).le,
    filter_none (· ≤ y) b fun z hz => not_le_of_gt (hb z hz), List.nil_append]

theorem turns_next {S : Finset α} {x y : α} (h : Next S x y) :
    ∃ rest, turns S x = y :: rest ∧ turns S y = rest ++ [y] := by
  obtain ⟨a, b, hab, ha, hb⟩ := sort_split S h.mem
  have hS (z : α) : z ∈ S ↔ z ∈ a ++ y :: b := by
    rw [← hab]
    exact (Finset.mem_sort (· ≤ ·)).symm
  have hy := turns_split hab ha hb
  obtain ⟨hxy, hfirst⟩ | ⟨hall, hfirst⟩ := h.first
  · have hax (z : α) (hz : z ∈ a) : z ≤ x := by
      by_contra hlt
      have hzy := hfirst z ((hS z).2 (List.mem_append_left _ hz)) (not_le.1 hlt)
      exact absurd (ha z hz) (not_lt_of_ge hzy)
    refine ⟨b ++ a, ?_, by rw [hy, List.append_assoc]⟩
    rw [turns, hab, List.filter_append, List.filter_append, List.filter_cons, List.filter_cons,
      if_pos (decide_eq_true hxy), if_neg (by simpa using hxy),
      filter_none (x < ·) a fun z hz => not_lt_of_ge (hax z hz),
      filter_all (x < ·) b fun z hz => hxy.trans (hb z hz), filter_all (· ≤ x) a hax,
      filter_none (· ≤ x) b fun z hz => not_le_of_gt (hxy.trans (hb z hz)), List.append_nil]
    rfl
  · have hnil : a = [] := by
      cases a with
      | nil => rfl
      | cons z a =>
        have hzy := hfirst z ((hS z).2 (List.mem_append_left _ List.mem_cons_self))
        exact absurd (ha z List.mem_cons_self) (not_lt_of_ge hzy)
    subst hnil
    refine ⟨b, ?_, hy⟩
    rw [turns, filter_none (x < ·), filter_all (· ≤ x), hab]
    · rfl
    · exact fun z hz => hall z ((Finset.mem_sort (· ≤ ·)).1 hz)
    · exact fun z hz => not_lt_of_ge (hall z ((Finset.mem_sort (· ≤ ·)).1 hz))

theorem chain_turns {S : Finset α} {x : α} {w : List α} (h : (x :: w).IsChain (Next S)) (hw : w.length ≤ S.card) :
    w = (turns S x).take w.length := by
  induction w generalizing x with
  | nil => rfl
  | cons y w ih =>
    obtain ⟨hxy, hchain⟩ := List.isChain_cons_cons.1 h
    obtain ⟨rest, hx, hy⟩ := turns_next hxy
    have hlen := length_turns S y
    rw [hy, List.length_append, List.length_singleton] at hlen
    rw [List.length_cons] at hw
    have hw' := ih hchain (by omega)
    rw [hy, List.take_append_of_le_length (by omega)] at hw'
    rw [hx, List.length_cons, List.take_succ_cons, ← hw']

/-- As many members as there are, each served behind the one before, are all of them. -/
theorem chain_perm {S : Finset α} {w : List α} (h : w.IsChain (Next S)) (hmem : ∀ y ∈ w, y ∈ S)
    (hw : w.length = S.card) : w.Perm S.sort := by
  cases w with
  | nil =>
    have hS := Finset.card_eq_zero.1 hw.symm
    rw [hS, Finset.sort_empty]
  | cons y w =>
    rw [List.length_cons] at hw
    obtain ⟨a, b, hab, ha, hb⟩ := sort_split S (hmem y List.mem_cons_self)
    have hturns := turns_split hab ha hb
    have hlen := length_turns S y
    rw [hturns, ← List.append_assoc] at hlen
    rw [List.length_append, List.length_singleton] at hlen
    have hw' := chain_turns h (by omega)
    rw [hturns, ← List.append_assoc, List.take_append_of_le_length (by omega),
      List.take_of_length_le (by omega)] at hw'
    have hperm : (y :: w).Perm (turns S y) := by
      rw [hturns, ← List.append_assoc, ← hw']
      exact (List.perm_append_singleton y w).symm
    exact hperm.trans (turns_perm S y)

end Cyclic
