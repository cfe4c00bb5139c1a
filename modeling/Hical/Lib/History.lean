import Mathlib.Data.List.Induction

namespace History

section Allows
variable {E : Type} {P Q : List E → E → Prop} {log : List E} {e : E}

def Allows (P : List E → E → Prop) (log : List E) : Prop :=
  ∀ before e after, log = before ++ e :: after → P before e

theorem allows_nil : Allows P [] := by
  intro before e after h
  simp at h

theorem allows_concat : Allows P (log ++ [e]) ↔ Allows P log ∧ P log e := by
  constructor
  · intro h
    refine ⟨fun before x after hl => ?_, h log e [] rfl⟩
    subst hl
    exact h before x (after ++ [e]) (by rw [List.append_assoc, List.cons_append])
  · rintro ⟨h, he⟩ before x after hl
    rcases List.eq_nil_or_concat after with rfl | ⟨rest, y, rfl⟩
    · obtain ⟨hlog, hx⟩ := List.append_inj' hl rfl
      cases hx
      exact hlog ▸ he
    · rw [List.concat_eq_append, ← List.cons_append, ← List.append_assoc] at hl
      exact h before x rest (List.append_inj' hl rfl).1

/-- What is allowed only where it has not been stands in the log once at most. -/
theorem Allows.count_le_one [DecidableEq E] (h : Allows P log) (hp : ∀ before, P before e → e ∉ before) :
    log.count e ≤ 1 := by
  induction log using List.reverseRecOn with
  | nil => exact Nat.zero_le _
  | append_singleton log x ih =>
    obtain ⟨hlog, hx⟩ := allows_concat.1 h
    rw [List.count_append]
    by_cases he : x = e
    · subst he
      rw [List.count_eq_zero.2 (hp log hx), Nat.zero_add]
      exact List.count_le_length
    · rw [List.count_singleton, if_neg (by simpa using he), Nat.add_zero]
      exact ih hlog

end Allows

end History
