import Mathlib.Data.List.Basic

namespace Transducer

/-- What one token does to a machine: it goes on and puts something out, stops for good with that
token, or fails. -/
inductive Move (σ ω : Type) where
  | go (s : σ) (out : List ω)
  | stop
  | fail
  deriving DecidableEq, Repr

/-- Where a run over an input ended. -/
inductive Ending (τ : Type) where
  | complete (rest : List τ)
  | failed
  | incomplete
  deriving DecidableEq, Repr

structure Run (σ τ ω : Type) where
  state : σ
  out : List ω
  ending : Ending τ
  deriving DecidableEq, Repr

section Run
variable {σ τ ω : Type} {step : σ → τ → Move σ ω}

/-- A run behind some output. -/
def Run.after (out : List ω) (r : Run σ τ ω) : Run σ τ ω := ⟨r.state, out ++ r.out, r.ending⟩

@[simp] theorem after_nil (r : Run σ τ ω) : r.after [] = r := rfl

theorem after_append (out out' : List ω) (r : Run σ τ ω) :
    r.after (out ++ out') = (r.after out').after out := by
  simp only [Run.after, List.append_assoc]

def run (step : σ → τ → Move σ ω) : σ → List τ → Run σ τ ω
  | s, [] => ⟨s, [], .incomplete⟩
  | s, b :: bs =>
    match step s b with
    | .go s' out => (run step s' bs).after out
    | .stop => ⟨s, [], .complete bs⟩
    | .fail => ⟨s, [], .failed⟩

@[simp] theorem run_nil (s : σ) : run step s [] = ⟨s, [], .incomplete⟩ := rfl

theorem run_go (h : step s b = .go s' out) (bs : List τ) :
    run step s (b :: bs) = (run step s' bs).after out := by
  rw [run, h]

theorem run_stop (h : step s b = .stop) (bs : List τ) :
    run step s (b :: bs) = ⟨s, [], .complete bs⟩ := by
  rw [run, h]

theorem run_fail (h : step s b = .fail) (bs : List τ) : run step s (b :: bs) = ⟨s, [], .failed⟩ := by
  rw [run, h]

/-- A run over an input that arrives in two pieces. -/
def Run.andThen (r : Run σ τ ω) (step : σ → τ → Move σ ω) (t : List τ) : Run σ τ ω :=
  match r.ending with
  | .complete rest => ⟨r.state, r.out, .complete (rest ++ t)⟩
  | .failed => ⟨r.state, r.out, .failed⟩
  | .incomplete => (run step r.state t).after r.out

theorem run_append (s : σ) (p t : List τ) : run step s (p ++ t) = (run step s p).andThen step t := by
  induction p generalizing s with
  | nil => rfl
  | cons b p ih =>
    cases hb : step s b with
    | go s' out =>
      rw [List.cons_append, run_go hb, run_go hb, ih]
      simp only [Run.andThen, Run.after]
      cases (run step s' p).ending with
      | complete rest => rfl
      | failed => rfl
      | incomplete => simp only [List.append_assoc]
    | stop =>
      rw [List.cons_append, run_stop hb, run_stop hb]
      rfl
    | fail =>
      rw [List.cons_append, run_fail hb, run_fail hb]
      rfl

theorem run_append_incomplete (h : (run step s p).ending = .incomplete) (t : List τ) :
    run step s (p ++ t) = (run step (run step s p).state t).after (run step s p).out := by
  rw [run_append, Run.andThen, h]

theorem run_incomplete (h : ∀ s b, ∃ s' out, step s b = .go s' out) (s : σ) (p : List τ) :
    (run step s p).ending = .incomplete := by
  induction p generalizing s with
  | nil => rfl
  | cons b p ih =>
    obtain ⟨s', out, hb⟩ := h s b
    rw [run_go hb]
    exact ih s'

theorem run_take (h : run step s (w.take n) = ⟨s', out, .incomplete⟩) :
    run step s w = (run step s' (w.drop n)).after out := by
  conv_lhs => rw [← List.take_append_drop n w]
  rw [run_append_incomplete (by rw [h]), h]

theorem run_append_complete (h : (run step s p).ending = .complete rest) (t : List τ) :
    run step s (p ++ t) = ⟨(run step s p).state, (run step s p).out, .complete (rest ++ t)⟩ := by
  rw [run_append, Run.andThen, h]

theorem run_append_failed (h : (run step s p).ending = .failed) (t : List τ) :
    run step s (p ++ t) = ⟨(run step s p).state, (run step s p).out, .failed⟩ := by
  rw [run_append, Run.andThen, h]

theorem run_complete_suffix (h : (run step s p).ending = .complete rest) :
    ∃ c, p = c ++ rest ∧ c ≠ [] := by
  induction p generalizing s with
  | nil => cases h
  | cons b p ih =>
    cases hb : step s b with
    | go s' out =>
      rw [run_go hb] at h
      obtain ⟨c, rfl, -⟩ := ih h
      exact ⟨b :: c, rfl, List.cons_ne_nil _ _⟩
    | stop =>
      rw [run_stop hb] at h
      cases h
      exact ⟨[b], rfl, List.cons_ne_nil _ _⟩
    | fail =>
      rw [run_fail hb] at h
      cases h

theorem length_out_le (h : ∀ s b s' out, step s b = .go s' out → out.length ≤ 1) (s : σ)
    (p : List τ) : (run step s p).out.length ≤ p.length := by
  induction p generalizing s with
  | nil => exact Nat.le_refl _
  | cons b p ih =>
    cases hb : step s b with
    | go s' out =>
      rw [run_go hb, Run.after, List.length_append, List.length_cons]
      have := h s b s' out hb
      have := ih s'
      omega
    | stop =>
      rw [run_stop hb]
      exact Nat.zero_le _
    | fail =>
      rw [run_fail hb]
      exact Nat.zero_le _

theorem out_append (s : σ) (p t : List τ) :
    ∃ out, (run step s (p ++ t)).out = (run step s p).out ++ out := by
  rw [run_append, Run.andThen]
  cases (run step s p).ending with
  | complete rest | failed => exact ⟨[], (List.append_nil _).symm⟩
  | incomplete => exact ⟨_, rfl⟩

theorem run_silent (h : ∀ b ∈ w, step s b = .go s []) (t : List τ) :
    run step s (w ++ t) = run step s t := by
  induction w with
  | nil => rfl
  | cons b w ih =>
    rw [List.cons_append, run_go (h b List.mem_cons_self)]
    rw [ih fun x hx => h x (List.mem_cons_of_mem _ hx)]
    rfl

end Run

end Transducer
