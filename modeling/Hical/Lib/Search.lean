import Mathlib.Data.List.Infix

/-! The first occurrence of a text inside another one. -/

namespace Hical.Search
variable [DecidableEq α]

/-- What is before the first `sep` and what is behind it. -/
def cutAt (sep : List α) : List α → Option (List α × List α)
  | [] => if sep = [] then some ([], []) else none
  | b :: s =>
    if sep <+: b :: s then some ([], (b :: s).drop sep.length)
    else (cutAt sep s).map fun r => (b :: r.1, r.2)

variable {sep s x y p q : List α} {c : α}

theorem cutAt_cons_of_not (h : ¬ sep <+: b :: s) :
    cutAt sep (b :: s) = (cutAt sep s).map fun r => (b :: r.1, r.2) := by
  rw [cutAt, if_neg h]

theorem cutAt_append (sep q : List α) : cutAt sep (sep ++ q) = some ([], q) := by
  cases sep with
  | nil => cases q <;> simp [cutAt]
  | cons c sep =>
    have h : c :: sep <+: c :: (sep ++ q) := List.prefix_append (c :: sep) q
    rw [List.cons_append, cutAt, if_pos h, ← List.cons_append, List.drop_left]

theorem cutAt_some (h : cutAt sep s = some (p, q)) : s = p ++ (sep ++ q) := by
  induction s generalizing p with
  | nil =>
    rw [cutAt] at h
    split at h
    · next hsep =>
      cases h
      simp [hsep]
    · cases h
  | cons b s ih =>
    rw [cutAt] at h
    split at h
    · next hpre =>
      cases h
      obtain ⟨t, ht⟩ := hpre
      rw [← ht, List.drop_left, List.nil_append]
    · obtain ⟨⟨p', q'⟩, hcut, heq⟩ := Option.map_eq_some_iff.1 h
      cases heq
      rw [ih hcut, List.cons_append]

theorem cutAt_none_iff : cutAt sep s = none ↔ ¬ sep <:+: s := by
  induction s with
  | nil =>
    rw [cutAt, List.infix_nil]
    split <;> simp [*]
  | cons b s ih =>
    rw [cutAt, List.infix_cons_iff, not_or, ← ih]
    split
    · next h => simp [h]
    · next h => simp [h]

theorem cutAt_of_infix (h : sep <:+: s) : ∃ p q, cutAt sep s = some (p, q) := by
  cases hcut : cutAt sep s with
  | none => exact absurd h (cutAt_none_iff.1 hcut)
  | some r => exact ⟨r.1, r.2, rfl⟩

theorem cutAt_occurs (h : cutAt sep s = some (p, q)) : sep <:+: s := by
  apply Decidable.byContradiction
  intro hno
  rw [cutAt_none_iff.2 hno] at h
  cases h

theorem cutAt_extend (h : cutAt sep x = some (p, q)) (y : List α) : cutAt sep (x ++ y) = some (p, q ++ y) := by
  induction x generalizing p with
  | nil =>
    rw [cutAt] at h
    split at h
    · next hsep =>
      cases h
      subst hsep
      exact cutAt_append [] y
    · cases h
  | cons b x ih =>
    by_cases hpre : sep <+: b :: x
    · rw [cutAt, if_pos hpre] at h
      cases h
      obtain ⟨t, ht⟩ := hpre
      rw [← ht, List.drop_left, List.append_assoc, cutAt_append]
    · rw [cutAt_cons_of_not hpre] at h
      obtain ⟨⟨p', q'⟩, hcut, heq⟩ := Option.map_eq_some_iff.1 h
      cases heq
      have hlen : sep.length ≤ (b :: x).length := by
        rw [cutAt_some hcut]
        simp only [List.length_cons, List.length_append]
        omega
      have hnot : ¬ sep <+: b :: (x ++ y) := fun hlong =>
        hpre (List.prefix_of_prefix_length_le hlong (List.prefix_append (b :: x) y) hlen)
      rw [List.cons_append, cutAt_cons_of_not hnot, ih hcut]
      rfl

theorem cutAt_before (hsep : sep ≠ []) (h : cutAt sep s = some (p, q)) : ¬ sep <:+: p := by
  intro hin
  obtain ⟨p', q', hcut⟩ := cutAt_of_infix hin
  have hfirst := cutAt_extend hcut (sep ++ q)
  rw [← cutAt_some h, h] at hfirst
  injection hfirst with hpair
  injection hpair with hp hq
  have hlen := congrArg List.length (cutAt_some hcut)
  rw [hp, List.length_append, List.length_append] at hlen
  have hpos := List.length_pos_of_ne_nil hsep
  omega

section Barrier
variable (hc : c ∉ sep) (hsep : sep ≠ [])
include hc

omit [DecidableEq α] in
theorem prefix_barrier : sep <+: x ++ c :: y ↔ sep <+: x := by
  constructor
  · intro h
    apply List.prefix_of_prefix_length_le h (List.prefix_append x (c :: y))
    apply Decidable.byContradiction
    intro hlen
    have hlong : x ++ [c] <+: sep := by
      apply List.prefix_of_prefix_length_le _ h
      · simp only [List.length_append, List.length_singleton]
        omega
      · exact ⟨y, by simp⟩
    exact hc (hlong.subset (List.mem_append_right x (List.mem_singleton_self c)))
  · intro h
    exact h.trans (List.prefix_append x (c :: y))

include hsep

theorem not_prefix_barrier : ¬ sep <+: c :: y := by
  intro h
  exact hsep (List.prefix_nil.1 ((prefix_barrier (x := []) hc).1 h))

theorem cutAt_barrier (h : ¬ sep <:+: x) (y : List α) :
    cutAt sep (x ++ c :: y) = (cutAt sep y).map fun r => (x ++ c :: r.1, r.2) := by
  induction x with
  | nil => exact cutAt_cons_of_not (not_prefix_barrier hc hsep)
  | cons b x ih =>
    have hx : ¬ sep <:+: x := fun hin => h (hin.trans (List.suffix_cons b x).isInfix)
    have hnot : ¬ sep <+: b :: (x ++ c :: y) := fun hpre =>
      h ((prefix_barrier (x := b :: x) hc).1 hpre).isInfix
    rw [List.cons_append, cutAt_cons_of_not hnot, ih hx, Option.map_map]
    rfl

theorem infix_barrier : sep <:+: x ++ c :: y ↔ sep <:+: x ∨ sep <:+: y := by
  constructor
  · intro h
    apply or_iff_not_imp_left.2
    intro hx
    obtain ⟨p, q, hcut⟩ := cutAt_of_infix h
    rw [cutAt_barrier hc hsep hx] at hcut
    obtain ⟨r, hr, heq⟩ := Option.map_eq_some_iff.1 hcut
    exact cutAt_occurs hr
  · rintro (h | h)
    · exact h.trans (List.prefix_append x (c :: y)).isInfix
    · exact h.trans ((List.suffix_cons c y).trans (List.suffix_append x (c :: y))).isInfix

end Barrier

theorem cutAt_skip (h : c ∉ x) (s : List α) :
    cutAt (c :: sep) (x ++ s) = (cutAt (c :: sep) s).map fun r => (x ++ r.1, r.2) := by
  induction x with
  | nil => simp
  | cons b x ih =>
    have hnot : ¬ c :: sep <+: b :: (x ++ s) := by
      intro hpre
      exact h ((List.cons_prefix_cons.1 hpre).1 ▸ List.mem_cons_self)
    rw [List.cons_append, cutAt_cons_of_not hnot, ih (fun hm => h (List.mem_cons_of_mem b hm)), Option.map_map]
    rfl

end Hical.Search
