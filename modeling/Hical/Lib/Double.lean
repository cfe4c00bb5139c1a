import Mathlib.Algebra.Order.Ring.Int
import Mathlib.Data.Nat.Log
import Mathlib.Tactic.Ring

/-- A `double`; a finite one is `mantissa * 2 ^ up / 2 ^ down`. -/
inductive Double where
  | finite (mantissa : Int) (up down : Nat) (isSmall : mantissa.natAbs < 2 ^ 53)
  | infinite (negative : Bool)
  | nan

namespace Double

/-- `n < d`. -/
def Above (n : Int) : Double → Prop
  | .finite mantissa up down _ => n * 2 ^ down < mantissa * 2 ^ up
  | .infinite negative => negative = false
  | .nan => False

/-- `n > d`. -/
def Below (n : Int) : Double → Prop
  | .finite mantissa up down _ => mantissa * 2 ^ up < n * 2 ^ down
  | .infinite negative => negative = true
  | .nan => False

instance (n : Int) (d : Double) : Decidable (d.Above n) :=
  match d with
  | .finite .. => inferInstanceAs (Decidable (_ < _))
  | .infinite _ => inferInstanceAs (Decidable (_ = _))
  | .nan => inferInstanceAs (Decidable False)

instance (n : Int) (d : Double) : Decidable (d.Below n) :=
  match d with
  | .finite .. => inferInstanceAs (Decidable (_ < _))
  | .infinite _ => inferInstanceAs (Decidable (_ = _))
  | .nan => inferInstanceAs (Decidable False)

/-- The double next to a natural number, the even one of two that are equally near. -/
def roundNat (n : Nat) : Nat :=
  let shift := n.log2 + 1 - 53
  let quotient := n / 2 ^ shift
  let rest := n % 2 ^ shift
  if 2 ^ shift < 2 * rest ∨ (2 ^ shift = 2 * rest ∧ quotient % 2 = 1) then (quotient + 1) * 2 ^ shift
  else quotient * 2 ^ shift

/-- `static_cast<double>` of an integer. -/
def ofInt (n : Int) : Int := if n < 0 then -(roundNat n.natAbs : Int) else roundNat n.toNat

section Rounding

theorem not_between (hq : 2 ^ 52 ≤ q) (hm : m < 2 ^ 53) (hlo : q * 2 ^ a < m * 2 ^ u) :
    (q + 1) * 2 ^ a ≤ m * 2 ^ u := by
  rcases Nat.le_total a u with h | h
  · obtain ⟨k, rfl⟩ := Nat.exists_eq_add_of_le h
    have heq : m * 2 ^ (a + k) = m * 2 ^ k * 2 ^ a := by ring
    rw [heq] at hlo ⊢
    have hlt : q < m * 2 ^ k := Nat.lt_of_mul_lt_mul_right hlo
    exact Nat.mul_le_mul_right _ hlt
  · obtain ⟨k, rfl⟩ := Nat.exists_eq_add_of_le h
    have heq (n : Nat) : n * 2 ^ (u + k) = n * 2 ^ k * 2 ^ u := by ring
    rw [heq] at hlo ⊢
    have hlt : q * 2 ^ k < m := Nat.lt_of_mul_lt_mul_right hlo
    cases k with
    | zero =>
      rw [Nat.pow_zero, Nat.mul_one] at hlt ⊢
      exact Nat.mul_le_mul_right _ hlt
    | succ k =>
      have hpos : 1 ≤ 2 ^ k := Nat.one_le_two_pow
      have htwice : q * 2 ≤ q * 2 ^ (k + 1) := by
        apply Nat.mul_le_mul_left
        rw [Nat.pow_succ]
        omega
      omega

/-- Rounding to one of the two neighbours, which is the number itself when it is small. -/
theorem roundNat_cases (n : Nat) :
    (n < 2 ^ 53 ∧ roundNat n = n) ∨
      ∃ q s, 2 ^ 53 ≤ n ∧ 2 ^ 52 ≤ q ∧ q * 2 ^ s ≤ n ∧ n < (q + 1) * 2 ^ s ∧
        (roundNat n = q * 2 ^ s ∨ (roundNat n = (q + 1) * 2 ^ s ∧ q * 2 ^ s < n)) := by
  by_cases hn : n < 2 ^ 53
  · left
    have hlog : n.log2 + 1 - 53 = 0 := by
      rcases Nat.eq_zero_or_pos n with rfl | hpos
      · rfl
      · have hlt := (Nat.log2_lt (by omega)).2 hn
        omega
    refine ⟨hn, ?_⟩
    simp only [roundNat, hlog, Nat.pow_zero, Nat.div_one, Nat.mod_one, Nat.mul_zero, Nat.mul_one]
    split
    · next h => omega
    · rfl
  · right
    have hne : n ≠ 0 := by omega
    have hlog : 53 ≤ n.log2 := (Nat.le_log2 hne).2 (by omega)
    obtain ⟨s, hs⟩ : ∃ s, n.log2 + 1 - 53 = s := ⟨_, rfl⟩
    have hpos : 0 < 2 ^ s := Nat.two_pow_pos s
    have hdiv := Nat.div_add_mod n (2 ^ s)
    have hmod := Nat.mod_lt n hpos
    have hmul : 2 ^ s * (n / 2 ^ s) = n / 2 ^ s * 2 ^ s := Nat.mul_comm ..
    have hsucc : (n / 2 ^ s + 1) * 2 ^ s = n / 2 ^ s * 2 ^ s + 2 ^ s := by ring
    refine ⟨n / 2 ^ s, s, by omega, ?_, by omega, by omega, ?_⟩
    · apply (Nat.le_div_iff_mul_le hpos).2
      rw [← Nat.pow_add]
      have hexp : 52 + s = n.log2 := by omega
      rw [hexp]
      exact Nat.log2_self_le hne
    · simp only [roundNat, hs]
      split
      · next h => exact .inr ⟨rfl, by omega⟩
      · exact .inl rfl

theorem roundNat_le (hm : m < 2 ^ 53) (h : n * 2 ^ d ≤ m * 2 ^ u) : roundNat n * 2 ^ d ≤ m * 2 ^ u := by
  rcases roundNat_cases n with ⟨-, hr⟩ | ⟨q, s, -, hq, hlo, hhi, hr | ⟨hr, hlt⟩⟩
  · rwa [hr]
  · rw [hr]
    exact Nat.le_trans (Nat.mul_le_mul_right _ hlo) h
  · have hstrict : q * 2 ^ (s + d) < m * 2 ^ u := by
      rw [Nat.pow_add, ← Nat.mul_assoc]
      exact Nat.lt_of_lt_of_le (Nat.mul_lt_mul_of_pos_right hlt (Nat.two_pow_pos d)) h
    have hnext := not_between hq hm hstrict
    rwa [Nat.pow_add, ← Nat.mul_assoc, ← hr] at hnext

theorem le_roundNat (hm : m < 2 ^ 53) (h : m * 2 ^ u ≤ n * 2 ^ d) : m * 2 ^ u ≤ roundNat n * 2 ^ d := by
  rcases roundNat_cases n with ⟨-, hr⟩ | ⟨q, s, -, hq, hlo, hhi, hr | ⟨hr, hlt⟩⟩
  · rwa [hr]
  · rw [hr]
    by_contra hgt
    have hstrict : q * 2 ^ (s + d) < m * 2 ^ u := by
      rw [Nat.pow_add, ← Nat.mul_assoc]
      omega
    have hnext := not_between hq hm hstrict
    rw [Nat.pow_add, ← Nat.mul_assoc] at hnext
    have habove := Nat.mul_lt_mul_of_pos_right hhi (Nat.two_pow_pos d)
    omega
  · rw [hr]
    exact Nat.le_trans h (Nat.mul_le_mul_right _ (Nat.le_of_lt hhi))

theorem ofInt_neg (n : Int) : ofInt (-n) = -ofInt n := by
  rcases Int.lt_trichotomy n 0 with h | rfl | h
  · have hneg : ¬ -n < 0 := by omega
    have habs : (-n).toNat = n.natAbs := by omega
    rw [ofInt, ofInt, if_neg hneg, if_pos h, habs, Int.neg_neg]
  · rfl
  · have hneg : ¬ n < 0 := by omega
    have hlt : -n < 0 := by omega
    have habs : (-n).natAbs = n.toNat := by omega
    rw [ofInt, ofInt, if_pos hlt, if_neg hneg, habs]

theorem le_ofInt (hm : m.natAbs < 2 ^ 53) (h : m * 2 ^ u ≤ n * 2 ^ d) : m * 2 ^ u ≤ ofInt n * 2 ^ d := by
  have hu : (0 : Int) < 2 ^ u := Int.pow_pos (by decide)
  have hd : (0 : Int) < 2 ^ d := Int.pow_pos (by decide)
  rw [ofInt]
  split
  · next hn =>
    have hneg : m < 0 := by
      by_contra hpos
      have hleft : 0 ≤ m * 2 ^ u := Int.mul_nonneg (by omega) (by omega)
      have hright : n * 2 ^ d < 0 := Int.mul_neg_of_neg_of_pos hn hd
      omega
    obtain ⟨j, rfl⟩ : ∃ j : Nat, m = -j := ⟨m.natAbs, by omega⟩
    obtain ⟨k, rfl⟩ : ∃ k : Nat, n = -k := ⟨n.natAbs, by omega⟩
    rw [Int.neg_mul, Int.neg_mul] at h ⊢
    rw [Int.natAbs_neg, Int.natAbs_natCast] at hm ⊢
    have hnat : k * 2 ^ d ≤ j * 2 ^ u := by
      have hle : (k : Int) * 2 ^ d ≤ j * 2 ^ u := by omega
      exact_mod_cast hle
    have hround : (roundNat k : Int) * 2 ^ d ≤ j * 2 ^ u := by exact_mod_cast roundNat_le hm hnat
    omega
  · next hn =>
    obtain ⟨k, rfl⟩ : ∃ k : Nat, n = k := ⟨n.toNat, by omega⟩
    rw [Int.toNat_natCast]
    by_cases hpos : 0 ≤ m
    · obtain ⟨j, rfl⟩ : ∃ j : Nat, m = j := ⟨m.toNat, by omega⟩
      rw [Int.natAbs_natCast] at hm
      have hnat : j * 2 ^ u ≤ k * 2 ^ d := by exact_mod_cast h
      exact_mod_cast le_roundNat hm hnat
    · have hleft : m * 2 ^ u < 0 := Int.mul_neg_of_neg_of_pos (by omega) hu
      have hright : (0 : Int) ≤ roundNat k * 2 ^ d := Int.mul_nonneg (by omega) (by omega)
      omega

theorem above_of_ofInt (d : Double) (h : d.Above (ofInt n)) : d.Above n := by
  cases d with
  | finite m u e hm =>
    by_contra hle
    have hround := le_ofInt (d := e) hm (Int.not_lt.1 hle)
    exact absurd h (Int.not_lt.2 hround)
  | infinite negative => exact h
  | nan => exact h

theorem below_of_ofInt (d : Double) (h : d.Below (ofInt n)) : d.Below n := by
  cases d with
  | finite m u e hm =>
    by_contra hle
    have hneg : -m * 2 ^ u ≤ -n * 2 ^ e := by
      rw [Int.neg_mul, Int.neg_mul]
      have hle := Int.not_lt.1 hle
      omega
    have hround := le_ofInt (by rwa [Int.natAbs_neg]) hneg
    rw [ofInt_neg, Int.neg_mul, Int.neg_mul] at hround
    have hlt : m * 2 ^ u < ofInt n * 2 ^ e := h
    omega
  | infinite negative => exact h
  | nan => exact h

end Rounding

end Double
