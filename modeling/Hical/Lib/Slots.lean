import Mathlib.Data.List.Nodup

namespace Slots

section Fill
variable {α : Type}

/-- A table written at some places, one write after the other. -/
def fill (table : List α) (writes : List (Nat × α)) : List α :=
  writes.foldl (fun table w => table.set w.1 w.2) table

theorem fill_cons (table : List α) (w : Nat × α) (writes : List (Nat × α)) :
    fill table (w :: writes) = fill (table.set w.1 w.2) writes := rfl

@[simp] theorem fill_length (table : List α) (writes : List (Nat × α)) :
    (fill table writes).length = table.length := by
  induction writes generalizing table with
  | nil => rfl
  | cons w writes ih => rw [fill_cons, ih, List.length_set]

theorem fill_of_not_written {writes : List (Nat × α)} (h : ∀ w ∈ writes, w.1 ≠ i) (table : List α) :
    (fill table writes)[i]? = table[i]? := by
  induction writes generalizing table with
  | nil => rfl
  | cons w writes ih =>
    rw [fill_cons, ih fun v hv => h v (List.mem_cons_of_mem _ hv)]
    exact List.getElem?_set_ne (h w List.mem_cons_self)

theorem fill_cases (table : List α) (writes : List (Nat × α)) (i : Nat) :
    (fill table writes)[i]? = table[i]? ∨
      ∃ w ∈ writes, w.1 = i ∧ (fill table writes)[i]? = if i < table.length then some w.2 else none := by
  induction writes generalizing table with
  | nil => exact .inl rfl
  | cons w writes ih =>
    rw [fill_cons]
    rcases ih (table.set w.1 w.2) with hkept | ⟨v, hv, hvi, hval⟩
    · by_cases hw : w.1 = i
      · refine .inr ⟨w, List.mem_cons_self, hw, ?_⟩
        rw [hkept, ← hw, List.getElem?_set_self']
        split
        · next hlt =>
          rw [List.getElem?_eq_getElem hlt]
          rfl
        · next hlt =>
          rw [List.getElem?_eq_none (Nat.le_of_not_lt hlt)]
          rfl
      · refine .inl ?_
        rw [hkept, List.getElem?_set_ne hw]
    · refine .inr ⟨v, List.mem_cons_of_mem _ hv, hvi, ?_⟩
      rw [hval, List.length_set]

theorem fill_written {table : List α} {writes : List (Nat × α)} (h : ∃ w ∈ writes, w.1 = i)
    (hlt : i < table.length) :
    ∃ w ∈ writes, w.1 = i ∧ (fill table writes)[i]? = some w.2 := by
  induction writes generalizing table with
  | nil =>
    obtain ⟨w, hw, -⟩ := h
    cases hw
  | cons w writes ih =>
    rw [fill_cons]
    by_cases hlater : ∃ v ∈ writes, v.1 = i
    · have hset : i < (table.set w.1 w.2).length := by
        rw [List.length_set]
        exact hlt
      obtain ⟨v, hv, hplace, hval⟩ := ih hlater hset
      exact ⟨v, List.mem_cons_of_mem _ hv, hplace, hval⟩
    · have hlast : ∀ v ∈ writes, v.1 ≠ i := fun v hv hplace => hlater ⟨v, hv, hplace⟩
      obtain ⟨v, hv, rfl⟩ := h
      rcases List.mem_cons.1 hv with rfl | hmem
      · refine ⟨v, List.mem_cons_self, rfl, ?_⟩
        rw [fill_of_not_written hlast, List.getElem?_set_self hlt]
      · exact absurd rfl (hlast v hmem)

theorem fill_of_written {table : List α} {writes : List (Nat × α)}
    (h : (writes.map Prod.fst).Nodup) (hw : w ∈ writes) (hlt : w.1 < table.length) :
    (fill table writes)[w.1]? = some w.2 := by
  induction writes generalizing table with
  | nil => cases hw
  | cons v writes ih =>
    rw [List.map_cons, List.nodup_cons] at h
    rw [fill_cons]
    rcases List.mem_cons.1 hw with rfl | hmem
    · rw [fill_of_not_written, List.getElem?_set_self hlt]
      rintro u hu heq
      exact h.1 (heq ▸ List.mem_map_of_mem hu)
    · apply ih h.2 hmem
      rw [List.length_set]
      exact hlt

end Fill

section Claim

/-- What taking places in a table one after the other comes to. -/
inductive Claimed where
  | outside
  | conflict
  | free (occupied : List (Option Nat))
  deriving DecidableEq, Repr

/-- Take the places in order; the table records who took each one. -/
def claim : List Nat → Nat → List (Option Nat) → Claimed
  | [], _, occupied => .free occupied
  | place :: places, i, occupied =>
    match occupied[place]? with
    | none => .outside
    | some (some _) => .conflict
    | some none => claim places (i + 1) (occupied.set place (some i))

theorem claim_free_iff {places : List Nat} {occupied : List (Option Nat)}
    (h : ∀ p ∈ places, p < occupied.length) :
    (∃ taken, claim places i occupied = .free taken) ↔
      places.Nodup ∧ ∀ p ∈ places, occupied[p]? = some none := by
  induction places generalizing i occupied with
  | nil =>
    constructor
    · intro _
      exact ⟨List.nodup_nil, fun _ hp => (nomatch hp)⟩
    · intro _
      exact ⟨occupied, rfl⟩
  | cons place places ih =>
    have hplace := h place List.mem_cons_self
    have hrest : ∀ p ∈ places, p < (occupied.set place (some i)).length := by
      intro p hp
      rw [List.length_set]
      exact h p (List.mem_cons_of_mem _ hp)
    rw [claim, List.nodup_cons]
    rw [List.getElem?_eq_getElem hplace]
    cases hval : occupied[place] with
    | some j =>
      dsimp only
      constructor
      · rintro ⟨taken, hc⟩
        cases hc
      · rintro ⟨-, hfree⟩
        have := hfree place List.mem_cons_self
        rw [List.getElem?_eq_getElem hplace, hval] at this
        cases this
    | none =>
      dsimp only
      rw [ih hrest]
      constructor
      · rintro ⟨hnodup, hfree⟩
        have hnot : place ∉ places := by
          intro hp
          have := hfree place hp
          rw [List.getElem?_set_self hplace] at this
          cases this
        refine ⟨⟨hnot, hnodup⟩, fun p hp => ?_⟩
        rcases List.mem_cons.1 hp with rfl | hmem
        · rw [List.getElem?_eq_getElem hplace, hval]
        · have hne : place ≠ p := fun heq => hnot (heq ▸ hmem)
          rw [← hfree p hmem, List.getElem?_set_ne hne]
      · rintro ⟨⟨hnot, hnodup⟩, hfree⟩
        refine ⟨hnodup, fun p hp => ?_⟩
        have hne : place ≠ p := fun heq => hnot (heq ▸ hp)
        rw [List.getElem?_set_ne hne]
        exact hfree p (List.mem_cons_of_mem _ hp)

end Claim

end Slots
