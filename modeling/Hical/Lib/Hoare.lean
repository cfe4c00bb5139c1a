import Hical.Lib.Effect

namespace Effect

section Triple
variable {S T ε α β : Type}

/-- Started where `P` holds, the computation ends where `Q` holds of its result, or throws where `E`
holds of the exception. -/
def Triple (P : S → Prop) (x : Eff S ε α) (Q : α → S → Prop) (E : ε → S → Prop) : Prop :=
  ∀ s, P s → match x.exec s with
    | (.ok a, s') => Q a s'
    | (.error e, s') => E e s'

variable {P P' : S → Prop} {Q Q' : α → S → Prop} {E E' : ε → S → Prop}

theorem Triple.ok {x : Eff S ε α} (h : Triple P x Q E) (hs : P s) (hx : x.exec s = (.ok a, s')) :
    Q a s' := by
  have := h s hs
  rwa [hx] at this

theorem Triple.error {x : Eff S ε α} (h : Triple P x Q E) (hs : P s)
    (hx : x.exec s = (.error e, s')) : E e s' := by
  have := h s hs
  rwa [hx] at this

theorem Triple.returns {x : Eff S ε α} (h : Triple P x Q fun _ _ => False) (hs : P s) :
    ∃ a s', x.exec s = (.ok a, s') ∧ Q a s' := by
  have := h s hs
  cases hx : x.exec s with
  | mk r s' =>
    rw [hx] at this
    cases r with
    | ok a => exact ⟨a, s', rfl, this⟩
    | error e => exact this.elim

theorem Triple.of_cases {x : Eff S ε α} (hok : ∀ s a s', P s → x.exec s = (.ok a, s') → Q a s')
    (herr : ∀ s e s', P s → x.exec s = (.error e, s') → E e s') : Triple P x Q E := by
  intro s hs
  split
  · next a s' hx => exact hok s a s' hs hx
  · next e s' hx => exact herr s e s' hs hx

theorem Triple.conseq {x : Eff S ε α} (h : Triple P x Q E) (hP : ∀ s, P' s → P s)
    (hQ : ∀ a s, Q a s → Q' a s) (hE : ∀ e s, E e s → E' e s) : Triple P' x Q' E' := by
  apply Triple.of_cases
  · intro s a s' hs hx
    exact hQ a s' (h.ok (hP s hs) hx)
  · intro s e s' hs hx
    exact hE e s' (h.error (hP s hs) hx)

theorem Triple.pre {x : Eff S ε α} (h : Triple P x Q E) (hP : ∀ s, P' s → P s) :
    Triple P' x Q E :=
  h.conseq hP (fun _ _ => id) fun _ _ => id

theorem Triple.exists_pre {ι : Sort _} {P : ι → S → Prop} {x : Eff S ε α}
    (h : ∀ j, Triple (P j) x Q E) : Triple (fun s => ∃ j, P j s) x Q E :=
  fun s ⟨j, hj⟩ => h j s hj

theorem Triple.and_pre {p : Prop} {x : Eff S ε α} (h : p → Triple P x Q E) :
    Triple (fun s => p ∧ P s) x Q E :=
  fun s ⟨hp, hs⟩ => h hp s hs

theorem Triple.bind {x : Eff S ε α} {f : α → Eff S ε β} {R : β → S → Prop} (hx : Triple P x Q E)
    (hf : ∀ a, Triple (Q a) (f a) R E) : Triple P (x >>= f) R E := by
  intro s hs
  rw [exec_bind]
  cases hxs : x.exec s with
  | mk r s' =>
    cases r with
    | ok a => exact hf a s' (hx.ok hs hxs)
    | error e => exact hx.error hs hxs

theorem Triple.pure (a : α) (h : ∀ s, P s → Q a s) : Triple P (pure a : Eff S ε α) Q E :=
  fun s hs => h s hs

theorem Triple.throw (e : ε) (h : ∀ s, P s → E e s) : Triple P (throw e : Eff S ε α) Q E :=
  fun s hs => h s hs

theorem Triple.modify {Q : Unit → S → Prop} (g : S → S) (h : ∀ s, P s → Q () (g s)) :
    Triple P (modify g : Eff S ε Unit) Q E :=
  fun s hs => h s hs

theorem Triple.get_bind {f : S → Eff S ε β} {R : β → S → Prop}
    (h : ∀ s₀, P s₀ → Triple (fun s => s = s₀) (f s₀) R E) :
    Triple P ((MonadState.get : Eff S ε S) >>= f) R E := by
  intro s hs
  have := h s hs s rfl
  rwa [exec_bind, exec_get]

theorem Triple.right {P : T → Prop} {Q : α → T → Prop} {E : ε → T → Prop} {x : Eff T ε α}
    (h : Triple P x Q E) (F : S → Prop) :
    Triple (fun s : S × T => F s.1 ∧ P s.2) x.right (fun a s => F s.1 ∧ Q a s.2)
      (fun e s => F s.1 ∧ E e s.2) := by
  rintro ⟨a, t⟩ ⟨hF, hP⟩
  rw [exec_right]
  have := h t hP
  cases hx : x.exec t with
  | mk r t' =>
    rw [hx] at this
    cases r with
    | ok b => exact ⟨hF, this⟩
    | error e => exact ⟨hF, this⟩

end Triple

section Keeps
variable {S T ε ρ α β : Type}

/-- The computation keeps an invariant, however it ends. -/
def Keeps (I : S → Prop) (x : Eff S ε α) : Prop := ∀ s, I s → I (x.exec s).2

theorem keeps_iff {I : S → Prop} {x : Eff S ε α} :
    Keeps I x ↔ Triple I x (fun _ => I) (fun _ => I) := by
  constructor
  · intro h
    apply Triple.of_cases
    · intro s a s' hs hx
      have := h s hs
      rwa [hx] at this
    · intro s e s' hs hx
      have := h s hs
      rwa [hx] at this
  · intro h s hs
    cases hx : x.exec s with
    | mk r s' =>
      cases r with
      | ok a => exact h.ok hs hx
      | error e => exact h.error hs hx

variable {I : S → Prop}

theorem Keeps.pure (a : α) : Keeps I (pure a : Eff S ε α) := fun _ hs => hs

theorem Keeps.throw (e : ε) : Keeps I (throw e : Eff S ε α) := fun _ hs => hs

theorem Keeps.modify (g : S → S) (h : ∀ s, I s → I (g s)) : Keeps I (modify g : Eff S ε Unit) :=
  fun s hs => h s hs

theorem Keeps.bind {x : Eff S ε α} {f : α → Eff S ε β} (hx : Keeps I x) (hf : ∀ a, Keeps I (f a)) :
    Keeps I (x >>= f) :=
  keeps_iff.2 ((keeps_iff.1 hx).bind fun a => keeps_iff.1 (hf a))

theorem Keeps.get_bind {f : S → Eff S ε β} (h : ∀ s, Keeps I (f s)) :
    Keeps I ((MonadState.get : Eff S ε S) >>= f) :=
  fun s hs => h s s hs

theorem Keeps.lift {J : T → Prop} (x : Eff S ε α) : Keeps (fun s : S × T => J s.2) x.lift :=
  fun _ hs => hs

theorem Keeps.right {J : T → Prop} {x : Eff T ε α} (h : Keeps J x) :
    Keeps (fun s : S × T => J s.2) x.right :=
  fun s hs => h s.2 hs

/-- The computation never throws. -/
def Returns (x : Eff S ε α) : Prop := ∀ s, ∃ a s', x.exec s = (.ok a, s')

/-- Every update of the program keeps the invariant. -/
def Prog.ActsKeep (I : S → Prop) : Prog S ε ρ → Prop
  | .ret _ => True
  | .raise _ => True
  | .act upd k => (∀ s, I s → I (upd s)) ∧ ∀ s, ActsKeep I (k s)
  | .next k => ∀ r, ActsKeep I (k r)

theorem Prog.keeps {p : Prog S ε ρ} (hp : p.ActsKeep I) {n : Eff S ε ρ} (hn : Keeps I n) :
    Keeps I (p.exec n) := by
  intro s hs
  rw [Prog.exec_exec]
  induction p generalizing s with
  | ret r => exact hs
  | raise e => exact hs
  | act upd k ih => exact ih _ (hp.2 _) _ (hp.1 s hs)
  | next k ih => exact ih _ (hp _) _ (hn s hs)

theorem Prog.actsKeep_lift {J : T → Prop} (p : Prog S ε ρ) :
    (p.lift : Prog (S × T) ε ρ).ActsKeep fun s => J s.2 := by
  induction p with
  | ret r => trivial
  | raise e => trivial
  | act upd k ih => exact ⟨fun s hs => hs, fun s => ih _⟩
  | next k ih => exact fun r => ih r

end Keeps

end Effect
