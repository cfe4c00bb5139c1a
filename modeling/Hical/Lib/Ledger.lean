import Mathlib.Algebra.BigOperators.Group.List.Basic
import Mathlib.Algebra.GroupWithZero.Nat
import Mathlib.Data.List.Basic

namespace Ledger

variable {α : Type} {f : α → Nat} {l : List α} {a : α} {i : Nat}

/-- What the holders of a list hold together. -/
def total (f : α → Nat) (l : List α) : Nat := (l.map f).sum

@[simp] theorem total_nil : total f [] = 0 := rfl

@[simp] theorem total_cons (a : α) (l : List α) : total f (a :: l) = f a + total f l :=
  List.sum_cons

@[simp] theorem total_append (l l' : List α) : total f (l ++ l') = total f l + total f l' := by
  rw [total, List.map_append, List.sum_append]
  rfl

theorem total_set (h : l[i]? = some a) (b : α) :
    total f (l.set i b) + f a = total f l + f b := by
  induction l generalizing i with
  | nil => cases h
  | cons x l ih =>
    cases i with
    | zero =>
      cases h
      rw [List.set_cons_zero, total_cons, total_cons]
      omega
    | succ i =>
      rw [List.set_cons_succ, total_cons, total_cons]
      have := ih h
      omega

theorem total_eraseIdx (h : l[i]? = some a) : total f (l.eraseIdx i) + f a = total f l := by
  induction l generalizing i with
  | nil => cases h
  | cons x l ih =>
    cases i with
    | zero =>
      cases h
      exact Nat.add_comm _ _
    | succ i =>
      rw [List.eraseIdx_cons_succ, total_cons, total_cons]
      have := ih h
      omega

theorem le_total (h : l[i]? = some a) : f a ≤ total f l := by
  have := total_eraseIdx (f := f) h
  omega

theorem total_congr {g : α → Nat} (h : ∀ x ∈ l, f x = g x) : total f l = total g l := by
  rw [total, List.map_congr_left h]
  rfl

theorem total_mono {g : α → Nat} (h : ∀ x, f x ≤ g x) (l : List α) : total f l ≤ total g l := by
  induction l with
  | nil => exact Nat.le_refl _
  | cons x l ih => exact Nat.add_le_add (h x) ih

theorem total_add (f g : α → Nat) (l : List α) :
    total (fun x => f x + g x) l = total f l + total g l := by
  induction l with
  | nil => rfl
  | cons x l ih =>
    rw [total_cons, total_cons, total_cons, ih]
    omega

theorem total_le_of_mem {g : α → Nat} (h : ∀ x ∈ l, f x ≤ g x) : total f l ≤ total g l := by
  induction l with
  | nil => exact Nat.le_refl _
  | cons x l ih =>
    rw [total_cons, total_cons]
    exact Nat.add_le_add (h x List.mem_cons_self) (ih fun y hy => h y (.tail _ hy))

theorem total_eq_zero (h : ∀ x ∈ l, f x = 0) : total f l = 0 := by
  induction l with
  | nil => rfl
  | cons x l ih =>
    rw [total_cons, h x List.mem_cons_self, ih fun y hy => h y (List.mem_cons_of_mem x hy)]

/-- If the others hold nothing, one holder has it all. -/
theorem total_only (h : l[i]? = some a)
    (ho : ∀ (j : Nat) (x : α), l[j]? = some x → j ≠ i → f x = 0) : total f l = f a := by
  induction l generalizing i with
  | nil => cases h
  | cons x l ih =>
    rw [total_cons]
    cases i with
    | zero =>
      cases h
      have hl : total f l = 0 := total_eq_zero fun y hy => by
        obtain ⟨j, hj⟩ := List.getElem?_of_mem hy
        exact ho (j + 1) y hj (Nat.succ_ne_zero j)
      rw [hl]
      rfl
    | succ i =>
      have hx : f x = 0 := ho 0 x rfl (Nat.succ_ne_zero i).symm
      have hi := ih h fun j y hj hne => ho (j + 1) y hj (fun he => hne (Nat.succ.inj he))
      rw [hx, hi]
      exact Nat.zero_add _

theorem set_self (h : l[i]? = some a) : l.set i a = l := by
  obtain ⟨hlt, rfl⟩ := List.getElem?_eq_some_iff.1 h
  exact List.set_getElem_self hlt

theorem mem_set_of_ne {b x : α} (h : l[i]? = some a) (hx : x ∈ l) (hne : x ≠ a) : x ∈ l.set i b := by
  obtain ⟨n, hn⟩ := List.getElem?_of_mem hx
  have hni : i ≠ n := by
    rintro rfl
    exact hne (Option.some.inj (hn.symm.trans h))
  exact List.mem_of_getElem? ((List.getElem?_set_ne hni).trans hn)

theorem mem_set_self (h : l[i]? = some a) (b : α) : b ∈ l.set i b :=
  List.mem_set (List.getElem?_eq_some_iff.1 h).1 b

theorem flatMap_set_same {β : Type} {f : α → List β} {b : α} (h : l[i]? = some a) (hf : f b = f a) :
    (l.set i b).flatMap f = l.flatMap f := by
  induction l generalizing i with
  | nil => cases h
  | cons x l ih =>
    cases i with
    | zero =>
      cases h
      rw [List.set_cons_zero, List.flatMap_cons, List.flatMap_cons, hf]
    | succ i =>
      rw [List.set_cons_succ, List.flatMap_cons, List.flatMap_cons, ih h]

theorem flatMap_set {β : Type} {f : α → List β} (h : l[i]? = some a) (b : α) :
    List.Perm (f a ++ (l.set i b).flatMap f) (f b ++ l.flatMap f) := by
  induction l generalizing i with
  | nil => cases h
  | cons x l ih =>
    cases i with
    | zero =>
      cases h
      rw [List.set_cons_zero, List.flatMap_cons, List.flatMap_cons]
      exact List.perm_append_comm_assoc ..
    | succ i =>
      rw [List.set_cons_succ, List.flatMap_cons, List.flatMap_cons]
      calc List.Perm (f a ++ (f x ++ (l.set i b).flatMap f))
            (f x ++ (f a ++ (l.set i b).flatMap f)) := List.perm_append_comm_assoc ..
        List.Perm _ (f x ++ (f b ++ l.flatMap f)) := (ih h).append_left _
        List.Perm _ (f b ++ (f x ++ l.flatMap f)) := List.perm_append_comm_assoc ..

theorem flatMap_set_only {β : Type} {f : α → List β} (h : l[i]? = some a)
    (ho : ∀ (j : Nat) (x : α), l[j]? = some x → j ≠ i → f x = []) (b : α) :
    l.flatMap f = f a ∧ (l.set i b).flatMap f = f b := by
  induction l generalizing i with
  | nil => cases h
  | cons x l ih =>
    cases i with
    | zero =>
      cases h
      have hl : l.flatMap f = [] := List.flatMap_eq_nil_iff.mpr fun y hy => by
        obtain ⟨j, hj⟩ := List.getElem?_of_mem hy
        exact ho (j + 1) y hj (Nat.succ_ne_zero j)
      rw [List.set_cons_zero, List.flatMap_cons, List.flatMap_cons, hl, List.append_nil,
        List.append_nil]
      exact ⟨rfl, rfl⟩
    | succ i =>
      have hx : f x = [] := ho 0 x rfl (Nat.succ_ne_zero i).symm
      have hi := ih h fun j y hj hne => ho (j + 1) y hj (fun he => hne (Nat.succ.inj he))
      rw [List.set_cons_succ, List.flatMap_cons, List.flatMap_cons, hx]
      exact hi

theorem only_holder {b : α} {j : Nat} (ht : total f l ≤ 1) (h : l[i]? = some a)
    (ha : f a = 1) (hj : l[j]? = some b) (hne : j ≠ i) : f b = 0 := by
  induction l generalizing i j with
  | nil => cases h
  | cons x l ih =>
    rw [total_cons] at ht
    cases i with
    | zero =>
      cases h
      cases j with
      | zero => exact absurd rfl hne
      | succ j =>
        have hj : l[j]? = some b := hj
        have := le_total (f := f) hj
        omega
    | succ i =>
      cases j with
      | zero =>
        cases hj
        have h : l[i]? = some a := h
        have := le_total (f := f) h
        omega
      | succ j => exact ih (by omega) h hj fun he => hne (congrArg _ he)

theorem exists_of_total_pos (h : 0 < total f l) :
    ∃ x ∈ l, 0 < f x := by
  by_contra hn
  have hz : total f l = 0 := total_eq_zero fun x hx => by
    by_contra hne
    exact hn ⟨x, hx, Nat.pos_of_ne_zero hne⟩
  omega

end Ledger
