import Mathlib.Algebra.Order.Field.Basic
import Mathlib.Algebra.Order.Group.MinMax
import Mathlib.Algebra.Order.Monoid.WithTop
import Mathlib.Tactic.Linarith
import Mathlib.Tactic.Ring

/-! Admission by tokens that come back with time. The credit of a bucket is what it holds less what
would have come back since time zero; time does not change it. -/

namespace TokenBucket

variable {K : Type} [Field K] [LinearOrder K] [IsStrictOrderedRing K]

/-- What an answer may do to a credit: without an admission it does not grow; an admission at time `t`
costs one token of a bucket that is never more than full. -/
inductive Charge (rate burst : K) : WithTop K → Option K → WithTop K → Prop where
  | idle (h : v ≤ u) : Charge rate burst u none v
  | take (hlow : -(rate * t) ≤ c) (hhigh : c + 1 ≤ burst - rate * t) (hu : ((c + 1 : K) : WithTop K) ≤ u) :
    Charge rate burst u (some t) c

/-- The credit before and behind a number of answers. -/
inductive Charges (rate burst : K) (u : WithTop K) : List (Option K) → WithTop K → Prop where
  | nil : Charges rate burst u [] u
  | less (h : Charges rate burst u log v) (hw : w ≤ v) : Charges rate burst u log w
  | snoc (h : Charges rate burst u log v) (hc : Charge rate burst v o w) : Charges rate burst u (log ++ [o]) w

/-- The admissions in a window of time. -/
def admitted (a b : K) (log : List (Option K)) : Nat := log.countP fun o => o.any fun t => decide (a ≤ t ∧ t ≤ b)

omit [Field K] [IsStrictOrderedRing K] in
theorem admitted_snoc (a b : K) (log : List (Option K)) (o : Option K) :
    admitted a b (log ++ [o]) = admitted a b log + if o.any (fun t => decide (a ≤ t ∧ t ≤ b)) = true then 1 else 0 := by
  rw [admitted, List.countP_append, List.countP_singleton]
  rfl

variable {rate burst : K}

/-- Once there was an admission in the window, every one of them has been paid for. -/
theorem Charges.paid (hrate : 0 ≤ rate) (a b : K) (h : Charges rate burst u log v) (hpos : 0 < admitted a b log) :
    (admitted a b log : K) ≤ burst + rate * (b - a) ∧
      ∃ c, v ≤ ((c : K) : WithTop K) ∧ c + admitted a b log ≤ burst - rate * a := by
  induction h with
  | nil => exact absurd hpos (Nat.lt_irrefl 0)
  | less h hw ih =>
    obtain ⟨hbound, c, hv, hc⟩ := ih hpos
    exact ⟨hbound, c, le_trans hw hv, hc⟩
  | @snoc log v o w h hc ih =>
    rw [admitted_snoc] at hpos ⊢
    cases hc with
    | idle hw =>
      obtain ⟨hbound, c, hv, hc⟩ := ih hpos
      exact ⟨hbound, c, le_trans hw hv, hc⟩
    | @take t c _ hlow hhigh hu =>
      have hcv : ((c : K) : WithTop K) ≤ v := by
        apply le_trans _ hu
        apply WithTop.coe_le_coe.2
        linarith
      rw [Option.any_some] at hpos ⊢
      by_cases hin : a ≤ t ∧ t ≤ b
      · rw [decide_eq_true hin, if_pos rfl] at hpos ⊢
        have hleft : rate * a ≤ rate * t := mul_le_mul_of_nonneg_left hin.1 hrate
        have hright : rate * t ≤ rate * b := mul_le_mul_of_nonneg_left hin.2 hrate
        have hpaid : c + (admitted a b log + 1 : Nat) ≤ burst - rate * a := by
          rcases Nat.eq_zero_or_pos (admitted a b log) with hzero | hsome
          · rw [hzero, Nat.zero_add, Nat.cast_one]
            linarith
          · obtain ⟨-, d, hd, hsum⟩ := ih hsome
            have hle : c + 1 ≤ d := WithTop.coe_le_coe.1 (le_trans hu hd)
            rw [Nat.cast_add, Nat.cast_one]
            linarith
        have hdist : rate * (b - a) = rate * b - rate * a := mul_sub ..
        exact ⟨by linarith, c, le_refl _, hpaid⟩
      · rw [decide_eq_false hin, if_neg Bool.false_ne_true, Nat.add_zero] at hpos ⊢
        obtain ⟨hbound, d, hd, hsum⟩ := ih hpos
        exact ⟨hbound, d, le_trans hcv hd, hsum⟩

/-- No window sees more admissions than the burst and what comes back in its length. -/
theorem Charges.admitted_le (hrate : 0 ≤ rate) (hburst : 0 ≤ burst) (hab : a ≤ b) (h : Charges rate burst u log v) :
    (admitted a b log : K) ≤ burst + rate * (b - a) := by
  rcases Nat.eq_zero_or_pos (admitted a b log) with hzero | hpos
  · rw [hzero, Nat.cast_zero]
    exact add_nonneg hburst (mul_nonneg hrate (sub_nonneg.2 hab))
  · exact (h.paid hrate a b hpos).1

section Levels

/-- What is in the bucket at `t` when `tokens` were in it at `last`. -/
def level (rate burst tokens last t : K) : K := min (tokens + (t - last) * rate) burst

def credit (rate tokens last : K) : K := tokens - rate * last

theorem credit_level (rate burst tokens last t : K) :
    credit rate (level rate burst tokens last t) t = min (credit rate tokens last) (burst - rate * t) := by
  have hsum : tokens + (t - last) * rate - rate * t = tokens - rate * last := by ring
  rw [credit, level, ← min_sub_sub_right, hsum, credit]

theorem charge_admit (h : 1 ≤ level rate burst tokens last t) :
    Charge rate burst ((credit rate tokens last : K) : WithTop K) (some t)
      ((credit rate (level rate burst tokens last t - 1) t : K) : WithTop K) := by
  have hcredit := credit_level rate burst tokens last t
  have hleft := min_le_left (credit rate tokens last) (burst - rate * t)
  have hright := min_le_right (credit rate tokens last) (burst - rate * t)
  rw [← hcredit, credit] at hleft hright
  apply Charge.take
  · rw [credit]
    linarith
  · rw [credit]
    linarith
  · apply WithTop.coe_le_coe.2
    rw [credit]
    linarith

theorem charge_refuse (rate burst tokens last t : K) :
    Charge rate burst ((credit rate tokens last : K) : WithTop K) none
      ((credit rate (level rate burst tokens last t) t : K) : WithTop K) := by
  apply Charge.idle
  apply WithTop.coe_le_coe.2
  rw [credit_level]
  exact min_le_left ..

theorem charge_create (hburst : 1 ≤ burst) {u : WithTop K} (hu : ((burst - rate * t : K) : WithTop K) ≤ u) :
    Charge rate burst u (some t) ((credit rate (burst - 1) t : K) : WithTop K) := by
  have hsum : burst - 1 - rate * t + 1 = burst - rate * t := by ring
  apply Charge.take
  · rw [credit]
    linarith
  · rw [credit]
    linarith
  · rw [credit, hsum]
    exact hu

end Levels

end TokenBucket
