import Hical.Lib.Hoare

namespace Effect

section Coupled
variable {S T ε ρ α β : Type} {R : S → T → Prop} {D : S → Prop}

/-- From related states the two computations end alike and in related states, unless the first one
ends where `D` holds: it has come to what sets them apart. -/
def Coupled (R : S → T → Prop) (D : S → Prop) (x : Eff S ε α) (y : Eff T ε α) : Prop :=
  ∀ s t, R s t → D (x.exec s).2 ∨ (x.exec s).1 = (y.exec t).1 ∧ R (x.exec s).2 (y.exec t).2

theorem Coupled.pure (a : α) : Coupled R D (pure a : Eff S ε α) (pure a : Eff T ε α) :=
  fun _ _ h => .inr ⟨rfl, h⟩

theorem Coupled.of_apart {x : Eff S ε α} {y : Eff T ε α} (h : ∀ s t, R s t → D (x.exec s).2) :
    Coupled R D x y :=
  fun s t hst => .inl (h s t hst)

theorem Coupled.modify {g : S → S} {g' : T → T} (h : ∀ s t, R s t → R (g s) (g' t)) :
    Coupled R D (modify g : Eff S ε Unit) (modify g' : Eff T ε Unit) :=
  fun s t hst => .inr ⟨rfl, h s t hst⟩

theorem Coupled.bind {x : Eff S ε α} {y : Eff T ε α} {f : α → Eff S ε β} {g : α → Eff T ε β}
    (hx : Coupled R D x y) (hf : ∀ a, Coupled R D (f a) (g a)) (hD : ∀ a, Keeps D (f a)) :
    Coupled R D (x >>= f) (y >>= g) := by
  intro s t hst
  rw [exec_bind, exec_bind]
  have h := hx s t hst
  cases hxs : x.exec s with
  | mk r s' =>
    cases hyt : y.exec t with
    | mk r' t' =>
      rw [hxs, hyt] at h
      rcases h with hd | ⟨hr, hst'⟩
      · left
        cases r with
        | ok a => exact hD a s' hd
        | error e => exact hd
      · cases hr
        cases r with
        | ok a => exact hf a s' t' hst'
        | error e => exact .inr ⟨rfl, hst'⟩

/-- The program does not tell related states apart. -/
def Prog.Blind (R : S → S → Prop) : Prog S ε ρ → Prop
  | .ret _ => True
  | .raise _ => True
  | .act upd k => ∀ s t, R s t → R (upd s) (upd t) ∧ k (upd s) = k (upd t) ∧ Blind R (k (upd s))
  | .next k => ∀ r, Blind R (k r)

theorem Prog.coupled {R : S → S → Prop} {p : Prog S ε ρ} (hp : p.Blind R) (hk : p.ActsKeep D)
    {n n' : Eff S ε ρ} (hn : Coupled R D n n') (hD : Keeps D n) :
    Coupled R D (p.exec n) (p.exec n') := by
  intro s t hst
  rw [Prog.exec_exec, Prog.exec_exec]
  induction p generalizing s t with
  | ret r => exact .inr ⟨rfl, hst⟩
  | raise e => exact .inr ⟨rfl, hst⟩
  | act upd k ih =>
    obtain ⟨hR, hkk, hb⟩ := hp s t hst
    have := ih (upd s) hb (hk.2 _) (upd s) (upd t) hR
    rw [Prog.run, Prog.run, ← hkk]
    exact this
  | next k ih =>
    rw [Prog.run, Prog.run]
    rcases hn s t hst with hd | ⟨hr, hst'⟩
    · exact .inl (Prog.keeps (hk _) hD _ hd)
    · rw [← hr]
      exact ih _ (hp _) (hk _) _ _ hst'

theorem Coupled.lift (J J' : T → Prop) {D : S × T → Prop} (x : Eff S ε α) :
    Coupled (fun s t : S × T => s.1 = t.1 ∧ J s.2 ∧ J' t.2) D x.lift x.lift := by
  rintro ⟨a, s⟩ ⟨b, t⟩ ⟨hab, hs, ht⟩
  cases hab
  exact .inr ⟨rfl, rfl, hs, ht⟩

theorem Prog.blind_lift (J J' : T → Prop) (p : Prog S ε ρ) :
    (p.lift : Prog (S × T) ε ρ).Blind fun s t => s.1 = t.1 ∧ J s.2 ∧ J' t.2 := by
  induction p with
  | ret r => trivial
  | raise e => trivial
  | act upd k ih =>
    rintro ⟨a, s⟩ ⟨b, t⟩ ⟨hab, hs, ht⟩
    cases hab
    exact ⟨⟨rfl, hs, ht⟩, rfl, ih _⟩
  | next k ih => exact fun r => ih r

end Coupled

end Effect
