import Mathlib.Algebra.Order.Ring.Nat
import Mathlib.Tactic.Linarith
import Mathlib.Tactic.Ring
import StructLang.Number.Double

namespace StructLang.Double

theorem le_roundDiv (n d : Nat) : n / d ≤ roundDiv n d := by
  simp only [roundDiv]
  split
  · exact Nat.le_refl _
  · split <;> omega

theorem roundDiv_le (n d : Nat) : roundDiv n d ≤ n / d + 1 := by
  simp only [roundDiv]
  split
  · omega
  · split <;> omega

theorem roundDiv_lt_succ_iff {n d : Nat} (hodd : n / d % 2 = 1) :
    roundDiv n d < n / d + 1 ↔ 2 * (n % d) < d := by
  simp only [roundDiv]
  split
  · omega
  · split <;> omega

theorem roundDiv_lt_iff {n d k : Nat} (hd : 0 < d) :
    roundDiv n d < 2 * k ↔ 2 * n + d < 4 * k * d := by
  have hle := le_roundDiv n d
  have hge := roundDiv_le n d
  have hmod := Nat.mod_lt n hd
  have hdiv : n = d * (n / d) + n % d := (Nat.div_add_mod n d).symm
  obtain hlt | heq | hgt := Nat.lt_trichotomy (n / d + 1) (2 * k)
  · refine iff_of_true (by omega) ?_
    have hk : d * (n / d + 2) ≤ d * (2 * k) := Nat.mul_le_mul_left d hlt
    nlinarith
  · rw [← heq, roundDiv_lt_succ_iff (by omega)]
    have hk : 4 * k * d = 2 * (d * (n / d)) + 2 * d := by
      rw [show 4 * k = 2 * (n / d + 1) by omega]
      ring
    omega
  · refine iff_of_false (by omega) ?_
    have hk : d * (2 * k) ≤ d * (n / d) := Nat.mul_le_mul_left d (by omega)
    have hcomm : 4 * k * d = 2 * (d * (2 * k)) := by ring
    omega

theorem div_pow_lt {n s : Nat} (h : Nat.log2 n ≤ 52 + s) : n / 2 ^ s < 2 ^ 53 := by
  rw [Nat.div_lt_iff_lt_mul (Nat.two_pow_pos s), ← Nat.pow_add]
  exact Nat.lt_log2_self.trans_le (Nat.pow_le_pow_right Nat.two_pos (by omega))

theorem le_div_pow {n s : Nat} (hn : n ≠ 0) (h : 52 + s ≤ Nat.log2 n) : 2 ^ 52 ≤ n / 2 ^ s := by
  rw [Nat.le_div_iff_mul_le (Nat.two_pow_pos s), ← Nat.pow_add]
  exact (Nat.pow_le_pow_right Nat.two_pos h).trans (Nat.log2_self_le hn)

theorem rankUnits_lt_iff (n e : Nat) :
    rankUnits n 1 < (e + 3) * 2 ^ 52 ↔ 2 * n + 2 ^ (e + 1) < 2 ^ 54 * 2 ^ (e + 1) := by
  have hpos := Nat.two_pow_pos (e + 1)
  have hunits : rankUnits n 1 =
      (Nat.log2 n - 52) * 2 ^ 52 + roundDiv n (2 ^ (Nat.log2 n - 52)) := by
    simp [rankUnits]
  rw [hunits]
  obtain hlt | heq | hgt := Nat.lt_trichotomy (Nat.log2 n) (e + 53)
  · have hdiv := div_pow_lt (n := n) (s := Nat.log2 n - 52) (by omega)
    have hround := roundDiv_le n (2 ^ (Nat.log2 n - 52))
    have hn : n < 2 ^ 52 * 2 ^ (e + 1) := by
      rw [← Nat.pow_add]
      exact Nat.lt_log2_self.trans_le (Nat.pow_le_pow_right Nat.two_pos (by omega))
    refine iff_of_true ?_ (by omega)
    have hscale : (Nat.log2 n - 52) * 2 ^ 52 ≤ e * 2 ^ 52 := Nat.mul_le_mul_right _ (by omega)
    omega
  · rw [show Nat.log2 n - 52 = e + 1 by omega]
    have hiff := roundDiv_lt_iff (n := n) (k := 2 ^ 52) hpos
    omega
  · have hn : n ≠ 0 := by
      rintro rfl
      simp at hgt
    have hdiv := le_div_pow (s := Nat.log2 n - 52) hn (by omega)
    have hround := le_roundDiv n (2 ^ (Nat.log2 n - 52))
    have hscale : (e + 2) * 2 ^ 52 ≤ (Nat.log2 n - 52) * 2 ^ 52 :=
      Nat.mul_le_mul_right _ (by omega)
    refine iff_of_false (by omega) ?_
    have hlow : 2 ^ 53 * 2 ^ (e + 1) ≤ n := by
      rw [← Nat.pow_add]
      exact (Nat.pow_le_pow_right Nat.two_pos (by omega)).trans (Nat.log2_self_le hn)
    omega

-- The exponent is a variable, lest the power be computed.
theorem exists_one_eq : ∃ k, k = 1074 ∧ one = 2 ^ k := by
  refine ⟨_, rfl, ?_⟩
  unfold one
  generalize 1074 = k
  exact Nat.pow_eq

theorem unit_pos : 0 < one := by
  obtain ⟨k, -, hone⟩ := exists_one_eq
  rw [hone]
  exact Nat.two_pow_pos k

/-- The least whole number that is too large to have a nearest double. -/
def overflow : Nat := 2 ^ 1024 - 2 ^ 970

theorem rankUnits_mul_lt_iff (n k e : Nat) :
    rankUnits (n * 2 ^ k) 1 < (e + k + 3) * 2 ^ 52 ↔ n < 2 ^ (e + 54) - 2 ^ e := by
  have hsum : 2 * (n * 2 ^ k) + 2 ^ (e + k + 1) = (n + 2 ^ e) * 2 ^ (k + 1) := by ring
  have hbound : 2 ^ 54 * 2 ^ (e + k + 1) = 2 ^ (e + 54) * 2 ^ (k + 1) := by ring
  rw [rankUnits_lt_iff, hsum, hbound, Nat.mul_lt_mul_right (Nat.two_pow_pos _)]
  exact Nat.lt_sub_iff_add_lt.symm

theorem rankRatio_lt_iff (n : Nat) : rankRatio n 1 < rankCount ↔ n < overflow := by
  obtain ⟨k, hk, hone⟩ := exists_one_eq
  have hcount : (970 + k + 3) * 2 ^ 52 = rankCount := hk ▸ rfl
  rw [rankRatio, hone, ← hcount, overflow, show 1024 = 970 + 54 from rfl]
  exact rankUnits_mul_lt_iff n k 970

theorem exists_ofInt?_iff {n : Int} : (∃ d, ofInt? n = some d) ↔ n.natAbs < overflow := by
  rw [← rankRatio_lt_iff]
  simp only [ofInt?]
  split
  · exact iff_of_true ⟨_, rfl⟩ ‹_›
  · exact iff_of_false (by simp) ‹_›

theorem units_lt (rank : Fin rankCount) : units rank < 2 ^ 1024 * one := by
  have hmantissa : mantissa rank < 2 ^ 53 := by
    have hmod := Nat.mod_lt rank (Nat.two_pow_pos 52)
    simp only [mantissa, Nat.pow_eq]
    split <;> omega
  have hscale : scale rank ≤ 2045 := by
    have hrank : rank.val < 2047 * 2 ^ 52 := rank.isLt
    simp only [scale, Nat.pow_eq]
    omega
  obtain ⟨k, hk, hone⟩ := exists_one_eq
  rw [units, hone, Nat.pow_eq, ← Nat.pow_add]
  calc mantissa rank * 2 ^ scale rank < 2 ^ 53 * 2 ^ scale rank :=
        Nat.mul_lt_mul_of_pos_right hmantissa (Nat.two_pow_pos _)
    _ = 2 ^ (53 + scale rank) := (Nat.pow_add ..).symm
    _ ≤ 2 ^ (1024 + k) := Nat.pow_le_pow_right Nat.two_pos (by omega)

theorem natAbs_lt_of_toInt? {d : Double} {n : Int} (h : d.toInt? = some n) :
    n.natAbs < 2 ^ 1024 := by
  cases d with
  | finite negative rank =>
    have hlt : units rank / one < 2 ^ 1024 := (Nat.div_lt_iff_lt_mul unit_pos).2 (units_lt rank)
    rw [toInt?] at h
    split at h
    · cases h
      split
      · rwa [Int.natAbs_neg, Int.natAbs_natCast]
      · rwa [Int.natAbs_natCast]
    · cases h
  | infinite negative => cases h
  | nan => cases h

end StructLang.Double
