import Mathlib.Data.List.TakeDrop

/-! Runs of a step function over a list of inputs, looked at before and behind each of them. -/

namespace Runs

section
variable {S E : Type} (step : S → E → S) (s : S) (inputs : List E) {n : Nat}

theorem take_succ (hn : inputs[n]? = some e) :
    (inputs.take (n + 1)).foldl step s = step ((inputs.take n).foldl step s) e := by
  rw [List.take_add_one, hn, List.foldl_append]
  rfl

/-- What holds at the start and is kept by each step holds all along. -/
theorem induct {P : Nat → S → Prop} (hstart : P 0 s)
    (hstep : ∀ n e, inputs[n]? = some e → P n ((inputs.take n).foldl step s) →
      P (n + 1) (step ((inputs.take n).foldl step s) e))
    (hstop : ∀ n, inputs[n]? = none → P n ((inputs.take n).foldl step s) →
      P (n + 1) ((inputs.take n).foldl step s))
    (n : Nat) : P n ((inputs.take n).foldl step s) := by
  induction n with
  | zero => exact hstart
  | succ n ih =>
    cases hn : inputs[n]? with
    | none =>
      rw [List.take_add_one, hn, Option.toList_none, List.append_nil]
      exact hstop n hn ih
    | some e =>
      rw [take_succ step s inputs hn]
      exact hstep n e hn ih

theorem invariant {P : S → Prop} (hstart : P s)
    (hstep : ∀ n e, inputs[n]? = some e → P ((inputs.take n).foldl step s) →
      P (step ((inputs.take n).foldl step s) e))
    (n : Nat) : P ((inputs.take n).foldl step s) :=
  induct (P := fun _ => P) step s inputs hstart hstep (fun _ _ h => h) n

/-- Each step of the run meets the condition where it is taken. -/
def Along (P : S → E → Prop) : S → List E → Prop
  | _, [] => True
  | s, e :: inputs => P s e ∧ Along P (step s e) inputs

instance Along.decidable (P : S → E → Prop) [∀ s e, Decidable (P s e)] :
    (s : S) → (inputs : List E) → Decidable (Along step P s inputs)
  | _, [] => .isTrue trivial
  | s, e :: inputs =>
    have := Along.decidable P (step s e) inputs
    inferInstanceAs (Decidable (P s e ∧ Along step P (step s e) inputs))

variable {step s inputs}

theorem Along.and {P Q : S → E → Prop} (h : Along step P s inputs) (h' : Along step Q s inputs) :
    Along step (fun s e => P s e ∧ Q s e) s inputs := by
  induction inputs generalizing s with
  | nil => trivial
  | cons e inputs ih => exact ⟨⟨h.1, h'.1⟩, ih h.2 h'.2⟩

theorem Along.imp {P Q : S → E → Prop} (h : Along step P s inputs) (hPQ : ∀ s e, P s e → Q s e) :
    Along step Q s inputs := by
  induction inputs generalizing s with
  | nil => trivial
  | cons e inputs ih => exact ⟨hPQ s e h.1, ih h.2⟩

theorem Along.invariant {P : S → E → Prop} {I : S → Prop} (h : Along step P s inputs) (hs : I s)
    (hstep : ∀ s e, I s → P s e → I (step s e)) (n : Nat) : I ((inputs.take n).foldl step s) := by
  induction inputs generalizing s n with
  | nil =>
    rw [List.take_nil]
    exact hs
  | cons e inputs ih =>
    cases n with
    | zero => exact hs
    | succ n => exact ih h.2 (hstep s e hs h.1) n

theorem Along.at {P : S → E → Prop} (h : Along step P s inputs) (hn : inputs[n]? = some e) :
    P ((inputs.take n).foldl step s) e := by
  induction inputs generalizing s n with
  | nil => cases hn
  | cons e' inputs ih =>
    cases n with
    | zero =>
      cases hn
      exact h.1
    | succ n => exact ih h.2 hn

theorem Along.of_invariant {P : S → E → Prop} {I : S → Prop} (hs : I s)
    (hstep : ∀ s, ∀ e ∈ inputs, I s → P s e ∧ I (step s e)) : Along step P s inputs := by
  induction inputs generalizing s with
  | nil => trivial
  | cons e inputs ih =>
    obtain ⟨he, hnext⟩ := hstep s e (List.mem_cons_self ..) hs
    exact ⟨he, ih hnext fun s e' he' => hstep s e' (List.mem_cons_of_mem _ he')⟩

/-- Where a step keeps the invariant exactly under a condition, a run does. -/
theorem invariant_iff_along {P : S → E → Prop} {I : S → Prop} (hs : I s)
    (hstep : ∀ s e, I s → (I (step s e) ↔ P s e)) :
    (∀ n, I ((inputs.take n).foldl step s)) ↔ Along step P s inputs := by
  constructor
  · intro h
    induction inputs generalizing s with
    | nil => trivial
    | cons e inputs ih =>
      have hnext : I (step s e) := h 1
      apply And.intro ((hstep s e hs).1 hnext)
      apply ih hnext
      intro n
      exact h (n + 1)
  · intro h
    exact h.invariant hs fun s e hs he => (hstep s e hs).2 he

end

/-- A run that no step refuses, with what is asked of the inputs to come. -/
theorem accepted {S E : Type} {step : S → E → Option S} {P : S → List E → Prop}
    {s s' : S} {inputs : List E}
    (hstep : ∀ s e s' rest, P s (e :: rest) → step s e = some s' → P s' rest)
    (h : P s inputs) (hr : inputs.foldlM step s = some s') : P s' [] := by
  induction inputs generalizing s with
  | nil =>
    cases hr
    exact h
  | cons e inputs ih =>
    rw [List.foldlM_cons, Option.bind_eq_bind, Option.bind_eq_some_iff] at hr
    obtain ⟨t, ht, hr⟩ := hr
    exact ih (hstep s e t inputs h ht) hr

end Runs
