import Hical.Lib.Hoare

namespace Effect

section Follows
variable {A C ε ρ α β : Type} {I : A × C → Prop}

/-- From where `I` holds, the first computation does on the one component what the second does alone,
and `I` holds again. -/
def Follows (I : A × C → Prop) (x : Eff (A × C) ε α) (y : Eff A ε α) : Prop :=
  ∀ s, I s → (x.exec s).1 = (y.exec s.1).1 ∧ (x.exec s).2.1 = (y.exec s.1).2 ∧ I (x.exec s).2

theorem Follows.pure (a : α) : Follows I (pure a : Eff (A × C) ε α) (pure a : Eff A ε α) :=
  fun _ h => ⟨rfl, rfl, h⟩

theorem Follows.bind {x : Eff (A × C) ε α} {y : Eff A ε α} {f : α → Eff (A × C) ε β}
    {g : α → Eff A ε β} (hx : Follows I x y) (hf : ∀ a, Follows I (f a) (g a)) :
    Follows I (x >>= f) (y >>= g) := by
  intro s h
  obtain ⟨hr, ha, hI⟩ := hx s h
  rw [exec_bind, exec_bind]
  cases hxs : x.exec s with
  | mk r s' =>
    cases hys : y.exec s.1 with
    | mk r' a' =>
      rw [hxs, hys] at hr ha
      rw [hxs] at hI
      cases hr
      cases ha
      cases r with
      | ok b => exact hf b s' hI
      | error e => exact ⟨rfl, rfl, hI⟩

theorem Follows.after {g : A × C → A × C} (hg : ∀ s, I s → (g s).1 = s.1 ∧ I (g s))
    {x : Eff (A × C) ε α} {y : Eff A ε α} (hx : Follows I x y) :
    Follows I (do MonadState.modifyGet fun s => ((), g s); x) y := by
  intro s h
  obtain ⟨hs, hI⟩ := hg s h
  have hx := hx (g s) hI
  rw [hs] at hx
  exact hx

theorem Follows.of_ok {x : Eff (A × C) ε α} {a : α}
    (h : ∀ s, I s → ∃ s', x.exec s = (.ok a, s') ∧ s'.1 = s.1 ∧ I s') :
    Follows I x (Pure.pure a : Eff A ε α) := by
  intro s hs
  obtain ⟨s', hx, hs', hI⟩ := h s hs
  rw [hx]
  exact ⟨rfl, hs', hI⟩

theorem Follows.get_bind {f : A × C → Eff (A × C) ε β} {g : A → Eff A ε β}
    (h : ∀ s, Follows I (f s) (g s.1)) :
    Follows I ((MonadState.get : Eff (A × C) ε (A × C)) >>= f)
      ((MonadState.get : Eff A ε A) >>= g) :=
  fun s hs => h s s hs

theorem Follows.lift {x : Eff A ε α} (h : ∀ s, I s → I ((x.exec s.1).2, s.2)) :
    Follows I x.lift x :=
  fun s hs => ⟨rfl, rfl, h s hs⟩

theorem Prog.follows_lift {p : Prog A ε ρ} (hp : ∀ c, p.ActsKeep fun a => I (a, c))
    {n : Eff (A × C) ε ρ} {n' : Eff A ε ρ} (hn : Follows I n n') :
    Follows I (p.lift.exec n) (p.exec n') := by
  intro s h
  rw [Prog.exec_exec, Prog.exec_exec]
  induction p generalizing s with
  | ret r => exact ⟨rfl, rfl, h⟩
  | raise e => exact ⟨rfl, rfl, h⟩
  | act upd k ih => exact ih _ (fun c => (hp c).2 _) _ ((hp s.2).1 s.1 h)
  | next k ih =>
    obtain ⟨hr, ha, hI⟩ := hn s h
    rw [Prog.lift, Prog.run, Prog.run, hr, ← ha]
    exact ih _ (fun c => hp c _) _ hI

theorem Prog.ActsKeep.through {J K : A → Prop} {p : Prog A ε ρ} (hp : p.ActsKeep J)
    (h : ∀ a a', (J a → J a') → K a → K a') : p.ActsKeep K := by
  induction p with
  | ret r => trivial
  | raise e => trivial
  | act upd k ih => exact ⟨fun a => h a _ (hp.1 a), fun a => ih _ (hp.2 a)⟩
  | next k ih => exact fun r => ih r (hp r)

theorem Prog.actsKeep_const (p : Prog A ε ρ) (q : Prop) : p.ActsKeep fun _ => q := by
  induction p with
  | ret r => trivial
  | raise e => trivial
  | act upd k ih => exact ⟨fun _ => id, fun a => ih _⟩
  | next k ih => exact fun r => ih r

end Follows

end Effect
