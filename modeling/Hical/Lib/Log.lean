import Hical.Lib.Effect

namespace Effect

section Log
variable {S E ε α β ρ : Type} {P Q : E → Prop}

/-- The computation only appends to the log it carries, and what it appends starts with an entry
that satisfies the predicate. -/
def Appends (P : E → Prop) (x : Eff (S × List E) ε α) : Prop :=
  ∀ s t, ∃ l, (x.exec (s, t)).2.2 = t ++ l ∧ ∀ e ∈ l.head?, P e

theorem appends_pure (a : α) : Appends P (pure a : Eff (S × List E) ε α) :=
  fun _ t => ⟨[], (List.append_nil t).symm, by simp⟩

theorem appends_lift (x : Eff S ε α) : Appends P (x.lift (T := List E)) :=
  fun _ t => ⟨[], (List.append_nil t).symm, by simp⟩

theorem head_append_of {l₁ l₂ : List E} (h₁ : ∀ e ∈ l₁.head?, P e) (h₂ : ∀ e ∈ l₂.head?, P e) :
    ∀ e ∈ (l₁ ++ l₂).head?, P e := by
  cases l₁ with
  | nil => simpa using h₂
  | cons a l => simpa using h₁

theorem log_bind {x : Eff (S × List E) ε α} {f : α → Eff (S × List E) ε β}
    (hf : ∀ a, Appends P (f a)) (σ : S × List E) :
    ∃ l, ((x >>= f).exec σ).2.2 = (x.exec σ).2.2 ++ l ∧ ∀ e ∈ l.head?, P e := by
  rw [exec_bind]
  rcases x.exec σ with ⟨_ | a, s', t'⟩
  · exact ⟨[], (List.append_nil t').symm, by simp⟩
  · exact hf a s' t'

theorem Appends.bind {x : Eff (S × List E) ε α} {f : α → Eff (S × List E) ε β}
    (hx : Appends P x) (hf : ∀ a, Appends P (f a)) : Appends P (x >>= f) := by
  intro s t
  obtain ⟨l₁, hl₁, hp₁⟩ := hx s t
  obtain ⟨l₂, hl₂, hp₂⟩ := log_bind (x := x) hf (s, t)
  exact ⟨l₁ ++ l₂, by rw [hl₂, hl₁, List.append_assoc], head_append_of hp₁ hp₂⟩

/-- The computation appends at least one entry, and the first satisfies the predicate. -/
def Reports (P : E → Prop) (x : Eff (S × List E) ε α) : Prop :=
  ∀ s t, ∃ e l, (x.exec (s, t)).2.2 = t ++ e :: l ∧ P e

theorem Reports.appends {x : Eff (S × List E) ε α} (h : Reports P x) : Appends P x := by
  intro s t
  obtain ⟨e, l, hl, hp⟩ := h s t
  exact ⟨e :: l, hl, by simpa using hp⟩

theorem Reports.bind {x : Eff (S × List E) ε α} {f : α → Eff (S × List E) ε β}
    (hx : Reports P x) (hf : ∀ a, Appends Q (f a)) : Reports P (x >>= f) := by
  intro s t
  obtain ⟨e, l₁, hl₁, hp⟩ := hx s t
  obtain ⟨l₂, hl₂, -⟩ := log_bind (x := x) hf (s, t)
  exact ⟨e, l₁ ++ l₂, by rw [hl₂, hl₁, List.append_assoc, List.cons_append], hp⟩

/-- Append one entry to the log. -/
def report (e : E) : Eff (S × List E) ε Unit := modify fun s => (s.1, s.2 ++ [e])

/-- Run a computation, then append an entry that says how it ended. -/
def Eff.logged (x : Eff S ε α) (entry : Except ε α → S → E) : Eff (S × List E) ε α :=
  Eff.of fun s => ((x.exec s.1).1, (x.exec s.1).2, s.2 ++ [entry (x.exec s.1).1 (x.exec s.1).2])

@[simp] theorem exec_logged (x : Eff S ε α) (entry : Except ε α → S → E) (s : S × List E) :
    (x.logged entry).exec s =
      ((x.exec s.1).1, (x.exec s.1).2, s.2 ++ [entry (x.exec s.1).1 (x.exec s.1).2]) := rfl

theorem reports_report (e : E) (he : P e) : Reports P (report e : Eff (S × List E) ε Unit) :=
  fun _ _ => ⟨e, [], rfl, he⟩

theorem appends_prog {n : Eff (S × List E) ε ρ} (h : Appends P n) (p : Prog S ε ρ) :
    Appends P (p.lift.exec n) := by
  intro s t
  induction p generalizing s t with
  | ret r | raise e => exact ⟨[], (List.append_nil t).symm, by simp⟩
  | act upd k ih => exact ih _ (upd s) t
  | next k ih =>
    obtain ⟨l₁, hl₁, hp₁⟩ := h s t
    rcases he : n.exec (s, t) with ⟨r, s', t'⟩
    obtain ⟨l₂, hl₂, hp₂⟩ := ih r s' t'
    rw [he] at hl₁
    have ht : t' = t ++ l₁ := hl₁
    refine ⟨l₁ ++ l₂, ?_, head_append_of hp₁ hp₂⟩
    rw [ht] at hl₂ he
    simpa [Prog.lift, Prog.run, he] using hl₂

/-- Two logs part where the second has this entry and the first does not. -/
def Parts (e : E) (t₁ t₂ : List E) : Prop :=
  ∃ p, p <+: t₁ ∧ p ++ [e] <+: t₂ ∧ ¬ p ++ [e] <+: t₁

theorem Parts.ne {t₁ t₂ : List E} (h : Parts e t₁ t₂) : t₁ ≠ t₂ := by
  obtain ⟨p, -, h₂, h₁⟩ := h
  rintro rfl
  exact h₁ h₂

theorem Parts.append {t₁ t₂ l₁ l₂ : List E} (h : Parts e t₁ t₂)
    (hl : ∀ x ∈ l₁.head?, x ≠ e) : Parts e (t₁ ++ l₁) (t₂ ++ l₂) := by
  obtain ⟨p, ⟨q, rfl⟩, h₂, h₁⟩ := h
  refine ⟨p, ⟨q ++ l₁, by simp⟩, h₂.trans (List.prefix_append _ _), ?_⟩
  rintro ⟨u, hu⟩
  rw [List.append_assoc, List.append_assoc, List.append_cancel_left_eq] at hu
  cases q with
  | nil =>
    cases l₁ with
    | nil => simp at hu
    | cons x l₁ =>
      obtain ⟨rfl, -⟩ := List.cons.inj hu
      exact hl e rfl rfl
  | cons x q =>
    obtain ⟨rfl, -⟩ := List.cons.inj hu
    exact h₁ ⟨q, by simp⟩

theorem Parts.append_right {t₁ t₂ : List E} (h : Parts e t₁ t₂) (l : List E) :
    Parts e t₁ (t₂ ++ l) := by
  obtain ⟨p, hp, h₂, h₁⟩ := h
  exact ⟨p, hp, h₂.trans (List.prefix_append _ _), h₁⟩

theorem parts_append_cons (e : E) (t l : List E) : Parts e t (t ++ e :: l) :=
  ⟨t, List.prefix_refl t, ⟨l, by simp⟩, fun h => by
    have := h.length_le
    simp only [List.length_append, List.length_singleton] at this
    omega⟩

/-- Two computations agree wherever the condition holds; elsewhere their logs part, and the first
never goes on with the entry at which they part. -/
def AgreesWhen (K : E → Prop) (c : S → Bool) (n₁ n₂ : Eff (S × List E) ε ρ) : Prop :=
  ∀ s t, if c s then n₁.exec (s, t) = n₂.exec (s, t) else
    ∃ e, K e ∧ Appends (· ≠ e) n₁ ∧ Parts e (n₁.exec (s, t)).2.2 (n₂.exec (s, t)).2.2

/-- The computation with a log does what the one without does. -/
def Shadows (n : Eff (S × List E) ε α) (m : Eff S ε α) : Prop :=
  ∀ s t, (n.exec (s, t)).1 = (m.exec s).1 ∧ (n.exec (s, t)).2.1 = (m.exec s).2

theorem shadows_pure (a : α) : Shadows (pure a : Eff (S × List E) ε α) (pure a) :=
  fun _ _ => ⟨rfl, rfl⟩

theorem shadows_lift (x : Eff S ε α) : Shadows (x.lift (T := List E)) x :=
  fun _ _ => ⟨rfl, rfl⟩

theorem Shadows.exec {n : Eff (S × List E) ε α} {m : Eff S ε α} (h : Shadows n m)
    (hn : n.exec (s, t) = (r, s', t')) : m.exec s = (r, s') := by
  obtain ⟨h₁, h₂⟩ := h s t
  rw [hn] at h₁ h₂
  exact Prod.ext h₁.symm h₂.symm

theorem Shadows.bind {n : Eff (S × List E) ε α} {m : Eff S ε α}
    {f : α → Eff (S × List E) ε β} {g : α → Eff S ε β} (h : Shadows n m)
    (hf : ∀ a, Shadows (f a) (g a)) : Shadows (n >>= f) (m >>= g) := by
  intro s t
  rw [exec_bind, exec_bind]
  rcases hn : n.exec (s, t) with ⟨_ | a, s', t'⟩
  · rw [h.exec hn]
    exact ⟨rfl, rfl⟩
  · rw [h.exec hn]
    exact hf a s' t'

theorem Shadows.report {m : Eff S ε α} {f : Unit → Eff (S × List E) ε α} (e : E)
    (h : Shadows (f ()) m) : Shadows (report e >>= f) m :=
  fun s t => h s (t ++ [e])

theorem shadows_prog {n : Eff (S × List E) ε ρ} {m : Eff S ε ρ} (h : Shadows n m)
    (p : Prog S ε ρ) : Shadows (p.lift.exec n) (p.exec m) := by
  intro s t
  induction p generalizing s t with
  | ret r => exact ⟨rfl, rfl⟩
  | raise e => exact ⟨rfl, rfl⟩
  | act upd k ih => exact ih _ (upd s) t
  | next k ih =>
    rcases hn : n.exec (s, t) with ⟨r, s', t'⟩
    have hk := ih r s' t'
    simp only [Prog.exec_exec, Prog.lift, Prog.run, hn, h.exec hn] at hk ⊢
    exact hk

/-- Parted logs stay parted when the first side goes on without the parting entry. -/
theorem Parts.exec {x₁ x₂ : Eff (S × List E) ε α} (h : Parts e t₁ t₂)
    (h₁ : Appends (· ≠ e) x₁) (h₂ : Appends (fun _ => True) x₂) (s₁ s₂ : S) :
    Parts e (x₁.exec (s₁, t₁)).2.2 (x₂.exec (s₂, t₂)).2.2 := by
  obtain ⟨l₁, hl₁, hp₁⟩ := h₁ s₁ t₁
  obtain ⟨l₂, hl₂, -⟩ := h₂ s₂ t₂
  rw [hl₁, hl₂]
  exact h.append hp₁

theorem Parts.bind {x₁ x₂ : Eff (S × List E) ε α} {f : α → Eff (S × List E) ε β}
    {σ₁ σ₂ : S × List E} (h : Parts e (x₁.exec σ₁).2.2 (x₂.exec σ₂).2.2)
    (hf : ∀ a, Appends (· ≠ e) (f a)) :
    Parts e ((x₁ >>= f).exec σ₁).2.2 ((x₂ >>= f).exec σ₂).2.2 := by
  obtain ⟨l₁, hl₁, hp₁⟩ := log_bind (x := x₁) hf σ₁
  obtain ⟨l₂, hl₂, -⟩ := log_bind (x := x₂) hf σ₂
  rw [hl₁, hl₂]
  exact h.append hp₁

theorem AgreesWhen.mono {K K' : E → Prop} {c : S → Bool} {n₁ n₂ : Eff (S × List E) ε ρ}
    (h : AgreesWhen K c n₁ n₂) (hk : ∀ e, K e → K' e) : AgreesWhen K' c n₁ n₂ := by
  intro s t
  have hs := h s t
  split at hs
  · next hv => rw [if_pos hv]; exact hs
  · next hv =>
    rw [if_neg hv]
    obtain ⟨e, he, ha, hp⟩ := hs
    exact ⟨e, hk e he, ha, hp⟩

theorem AgreesWhen.prog {K : E → Prop} {c : S → Bool} {n₁ n₂ : Eff (S × List E) ε ρ}
    {m : Eff S ε ρ} (h : AgreesWhen K c n₁ n₂) (hn : Appends (fun _ => True) n₂)
    (hm : Shadows n₂ m) (p : Prog S ε ρ) :
    AgreesWhen K (fun s => (p.visits m s).all c) (p.lift.exec n₁)
      (p.lift.exec n₂) := by
  have key (p : Prog S ε ρ) (s : S) (t : List E) :
      if (p.visits m s).all c then p.lift.run n₁ (s, t) = p.lift.run n₂ (s, t) else
        ∃ e, K e ∧ Appends (· ≠ e) n₁ ∧
          Parts e (p.lift.run n₁ (s, t)).2.2 (p.lift.run n₂ (s, t)).2.2 := by
    induction p generalizing s t with
    | ret r => rfl
    | raise e => rfl
    | act upd k ih => exact ih _ (upd s) t
    | next k ih =>
      have hc := h s t
      by_cases hcs : c s
      · rw [if_pos hcs] at hc
        rcases hn₂ : n₂.exec (s, t) with ⟨r, s', t'⟩
        rw [hn₂] at hc
        simp only [Prog.visits, List.all_cons, hcs, Bool.true_and, Prog.lift, Prog.run, hc, hn₂,
          hm.exec hn₂]
        exact ih r s' t'
      · rw [if_neg hcs] at hc
        obtain ⟨e, hK, ha, hp⟩ := hc
        have hv : ¬ ((Prog.visits m (.next k) s).all c = true) := by
          simp [Prog.visits, hcs]
        rw [if_neg hv]
        exact ⟨e, hK, ha, hp.exec (appends_prog ha (k (n₁.exec (s, t)).1))
          (appends_prog hn (k (n₂.exec (s, t)).1)) _ _⟩
  intro s t
  have hk := key p s t
  split at hk
  · next hv => rw [if_pos hv]; exact hk
  · next hv =>
    rw [if_neg hv]
    obtain ⟨e, hK, ha, hp⟩ := hk
    exact ⟨e, hK, appends_prog ha p, hp⟩

end Log

end Effect
