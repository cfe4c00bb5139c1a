import Mathlib.Data.List.Basic

namespace Effect

/-- A computation on a state that may throw; the state survives the exception. -/
abbrev Eff (S ε α : Type) := ExceptT ε (StateM S) α

def Eff.exec (x : Eff S ε α) (s : S) : Except ε α × S := StateT.run (ExceptT.run x) s

def Eff.of (f : S → Except ε α × S) : Eff S ε α := ExceptT.mk f

@[simp] theorem exec_of (f : S → Except ε α × S) (s : S) : (Eff.of f).exec s = f s := rfl

@[simp] theorem exec_pure (a : α) (s : S) : (pure a : Eff S ε α).exec s = (.ok a, s) := rfl

@[simp] theorem exec_get (s : S) : (get : Eff S ε S).exec s = (.ok s, s) := rfl

@[simp] theorem exec_modify (f : S → S) (s : S) :
    (modify f : Eff S ε Unit).exec s = (.ok (), f s) := rfl

theorem exec_bind (x : Eff S ε α) (f : α → Eff S ε β) (s : S) :
    (x >>= f).exec s = match x.exec s with
      | (.ok a, s') => (f a).exec s'
      | (.error e, s') => (.error e, s') := by
  change ExceptT.bindCont f (x.exec s).1 (x.exec s).2 = _
  rcases x.exec s with ⟨_ | _, _⟩ <;> rfl

theorem exec_bind_ok_iff {x : Eff S ε α} {f : α → Eff S ε β} :
    (x >>= f).exec s = (.ok b, s') ↔ ∃ a t, x.exec s = (.ok a, t) ∧ (f a).exec t = (.ok b, s') := by
  rw [exec_bind]
  rcases x.exec s with ⟨_ | _, _⟩ <;> simp

theorem exec_bind_ok {x : Eff S ε α} (f : α → Eff S ε β) (h : x.exec s = (.ok a, s')) :
    (x >>= f).exec s = (f a).exec s' := by
  rw [exec_bind, h]

theorem exec_bind_error {x : Eff S ε α} (f : α → Eff S ε β) (h : x.exec s = (.error e, s')) :
    (x >>= f).exec s = (.error e, s') := by
  rw [exec_bind, h]

theorem except_bind_ok {x : Except ε α} {f : α → Except ε β} (h : x >>= f = .ok b) :
    ∃ a, x = .ok a ∧ f a = .ok b := by
  cases x with
  | error e => exact nomatch h
  | ok a => exact ⟨a, rfl, h⟩

/-- How a computation ended, as a value. -/
def Eff.attempt (x : Eff S ε α) : Eff S ε (Except ε α) :=
  Eff.of fun s => (.ok (x.exec s).1, (x.exec s).2)

@[simp] theorem exec_attempt (x : Eff S ε α) (s : S) :
    x.attempt.exec s = (.ok (x.exec s).1, (x.exec s).2) := rfl

theorem Eff.ext {x y : Eff S ε α} (h : ∀ s, x.exec s = y.exec s) : x = y := funext h

section Lift
variable {S T ε α β : Type}

/-- A computation run beside a component of the state that it does not see. -/
def Eff.lift (x : Eff S ε α) : Eff (S × T) ε α :=
  Eff.of fun s => ((x.exec s.1).1, (x.exec s.1).2, s.2)

@[simp] theorem exec_lift (x : Eff S ε α) (s : S × T) :
    (x.lift (T := T)).exec s = ((x.exec s.1).1, (x.exec s.1).2, s.2) := rfl

/-- A computation on the component that the others do not see. -/
def Eff.right (x : Eff T ε α) : Eff (S × T) ε α :=
  Eff.of fun s => ((x.exec s.2).1, s.1, (x.exec s.2).2)

@[simp] theorem exec_right (x : Eff T ε α) (s : S × T) :
    (x.right (S := S)).exec s = ((x.exec s.2).1, s.1, (x.exec s.2).2) := rfl

theorem exec_right_ok {x : Eff T ε α} {s u : S × T} (h : x.right.exec s = (.ok a, u)) :
    x.exec s.2 = (.ok a, u.2) ∧ u.1 = s.1 := by
  rw [exec_right] at h
  obtain ⟨h₁, h₂⟩ := Prod.mk.inj h
  subst h₂
  exact ⟨Prod.ext h₁ rfl, rfl⟩

end Lift

/-- A program that works on a state and may call the rest of the computation any number of times,
seeing how each call ended. -/
inductive Prog (S ε ρ : Type) where
  | ret (r : ρ)
  | raise (e : ε)
  | act (upd : S → S) (k : S → Prog S ε ρ)
  | next (k : Except ε ρ → Prog S ε ρ)

namespace Prog
variable {S T ε ρ : Type}

def run (n : Eff S ε ρ) : Prog S ε ρ → S → Except ε ρ × S
  | .ret r, s => (.ok r, s)
  | .raise e, s => (.error e, s)
  | .act upd k, s => run n (k (upd s)) (upd s)
  | .next k, s => run n (k (n.exec s).1) (n.exec s).2

def exec (n : Eff S ε ρ) (p : Prog S ε ρ) : Eff S ε ρ := Eff.of (p.run n)

@[simp] theorem exec_exec (n : Eff S ε ρ) (p : Prog S ε ρ) (s : S) :
    (p.exec n).exec s = p.run n s := rfl

/-- The states in which the program calls the rest of the computation. -/
def visits (n : Eff S ε ρ) : Prog S ε ρ → S → List S
  | .ret _, _ => []
  | .raise _, _ => []
  | .act upd k, s => visits n (k (upd s)) (upd s)
  | .next k, s => s :: visits n (k (n.exec s).1) (n.exec s).2

/-- The program beside a component of the state that it does not see. -/
def lift : Prog S ε ρ → Prog (S × T) ε ρ
  | .ret r => .ret r
  | .raise e => .raise e
  | .act upd k => .act (fun s => (upd s.1, s.2)) fun s => lift (k s.1)
  | .next k => .next fun r => lift (k r)

end Prog

end Effect
