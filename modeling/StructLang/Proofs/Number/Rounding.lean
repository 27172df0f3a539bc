import StructLang.Proofs.Number.Nearest
import StructLang.Proofs.Number.Spelling

namespace StructLang.Double

def roundNat (n : Nat) : Nat :=
  roundDiv n (2 ^ (Nat.log2 n - 52)) * 2 ^ (Nat.log2 n - 52)

def roundInt (n : Int) : Int := n.sign * roundNat n.natAbs

theorem roundDiv_mul_right (n d : Nat) {k : Nat} (hk : 0 < k) :
    roundDiv (n * k) (d * k) = roundDiv n d := by
  simp only [roundDiv, Nat.mul_div_mul_right _ _ hk, Nat.mul_mod_mul_right, ← Nat.mul_assoc,
    Nat.mul_lt_mul_right hk]

theorem roundDiv_mul_self (n : Nat) {d : Nat} (hd : 0 < d) : roundDiv (n * d) d = n := by
  simp [roundDiv, hd]

theorem roundDiv_bounds (n : Nat) :
    (Nat.log2 n - 52 = 0 ∨ 2 ^ 52 ≤ roundDiv n (2 ^ (Nat.log2 n - 52))) ∧
      roundDiv n (2 ^ (Nat.log2 n - 52)) ≤ 2 ^ 53 := by
  obtain ⟨hlow, hhigh⟩ := div_bounds (n := n) (d := 1) (s := Nat.log2 n - 52) (by rw [Nat.div_one])
  rw [Nat.one_mul] at hlow hhigh
  have hle := le_roundDiv n (2 ^ (Nat.log2 n - 52))
  have hge := roundDiv_le n (2 ^ (Nat.log2 n - 52))
  exact ⟨hlow.imp_right (·.trans hle), by omega⟩

theorem units_rankUnits (n : Nat) :
    units (rankUnits n 1) = roundNat n := by
  obtain ⟨hlow, hhigh⟩ := roundDiv_bounds n
  simp only [rankUnits, Nat.div_one, Nat.one_mul, Nat.pow_eq]
  exact units_eq hlow hhigh

theorem log2_mul_pow {n : Nat} (hn : n ≠ 0) (k : Nat) :
    Nat.log2 (n * 2 ^ k) = Nat.log2 n + k := by
  induction k with
  | zero => rw [Nat.pow_zero, Nat.mul_one, Nat.add_zero]
  | succ k ih =>
    have hpos : n * 2 ^ k ≠ 0 := Nat.mul_ne_zero hn (Nat.two_pow_pos k).ne'
    rw [Nat.pow_succ, ← Nat.mul_assoc, Nat.mul_comm _ 2, Nat.log2_two_mul hpos, ih, Nat.add_assoc]

theorem roundNat_mul_pow (n k : Nat) :
    roundNat (n * 2 ^ k) = roundNat n * 2 ^ k := by
  rw [roundNat, roundNat]
  obtain rfl | hn := eq_or_ne n 0
  · simp [roundDiv]
  rw [log2_mul_pow hn]
  obtain hlt | hge := Nat.lt_or_ge (Nat.log2 n) 52
  · -- all bits of the number are kept
    obtain ⟨j, hj⟩ : ∃ j, k = j + (Nat.log2 n + k - 52) := ⟨k - (Nat.log2 n + k - 52), by omega⟩
    have hall : roundDiv n 1 = n := by simpa using roundDiv_mul_self n Nat.one_pos
    have hscaled : n * 2 ^ k = n * 2 ^ j * 2 ^ (Nat.log2 n + k - 52) := by
      rw [Nat.mul_assoc, ← Nat.pow_add, ← hj]
    rw [hscaled, roundDiv_mul_self _ (Nat.two_pow_pos _), ← hscaled, Nat.sub_eq_zero_of_le hlt.le,
      Nat.pow_zero, hall, Nat.mul_one]
  · have hshift : Nat.log2 n + k - 52 = Nat.log2 n - 52 + k := by omega
    rw [hshift, Nat.pow_add, roundDiv_mul_right _ _ (Nat.two_pow_pos k), Nat.mul_assoc]

def IsExact (n : Int) : Prop := ∃ m k, n.natAbs = m * 2 ^ k ∧ m ≤ 2 ^ 53

theorem roundNat_of_le {m : Nat} (h : m ≤ 2 ^ 53) : roundNat m = m := by
  obtain rfl | hne := eq_or_ne m 0
  · rfl
  obtain hlt | rfl := Nat.lt_or_eq_of_le h
  · have hlog : Nat.log2 m < 53 := (Nat.log2_lt hne).2 hlt
    rw [roundNat, Nat.sub_eq_zero_of_le (by omega), Nat.pow_zero, Nat.mul_one]
    simpa using roundDiv_mul_self m Nat.one_pos
  · have hpower := roundNat_mul_pow 1 53
    rwa [show roundNat 1 = 1 from rfl, Nat.one_mul] at hpower

theorem natAbs_roundInt (n : Int) : (roundInt n).natAbs = roundNat n.natAbs := by
  obtain rfl | hne := eq_or_ne n 0
  · rfl
  · rw [roundInt, Int.natAbs_mul, Int.natAbs_sign_of_ne_zero hne, Nat.one_mul, Int.natAbs_natCast]

theorem isExact_roundInt (n : Int) : IsExact (roundInt n) :=
  ⟨_, _, natAbs_roundInt n, (roundDiv_bounds n.natAbs).2⟩

theorem roundInt_eq_self_iff {n : Int} : roundInt n = n ↔ IsExact n := by
  constructor
  · intro h
    rw [← h]
    exact isExact_roundInt n
  · rintro ⟨m, k, hn, hm⟩
    rw [roundInt, hn, roundNat_mul_pow, roundNat_of_le hm, ← hn, Int.sign_mul_natAbs]

theorem units_rankRatio (n : Nat) : units (rankRatio n 1) = roundNat n * one := by
  obtain ⟨k, -, hone⟩ := exists_one_eq
  rw [rankRatio, hone, units_rankUnits, roundNat_mul_pow]

theorem toInt?_of_units {rank k : Nat} (hrank : rank < rankCount) (h : units rank = k * one)
    (negative : Bool) :
    (finite negative ⟨rank, hrank⟩).toInt? = some (if negative then -(k : Int) else k) := by
  have hone := unit_pos
  rw [toInt?, h]
  -- The unit is made a variable, lest it be computed.
  generalize one = unit at *
  rw [if_pos (Nat.mul_mod_left k unit), Nat.mul_div_cancel k hone]

theorem toInt?_ofInt? {n : Int} {d : Double} (h : ofInt? n = some d) :
    d.toInt? = some (roundInt n) := by
  have hunits := units_rankRatio n.natAbs
  simp only [ofInt?] at h
  split at h
  · rename_i hrank
    rw [← Option.some.inj h, toInt?_of_units hrank hunits, roundInt]
    obtain hneg | rfl | hpos := lt_trichotomy n 0
    · rw [if_pos (decide_eq_true hneg), Int.sign_eq_neg_one_of_neg hneg, Int.neg_one_mul]
    · rfl
    · rw [if_neg (by simpa using hpos.le), Int.sign_eq_one_of_pos hpos, Int.one_mul]
  · cases h

def ofInt (n : Int) : Double := ofRank (n < 0) (rankRatio n.natAbs 1)

theorem ofInt_eq_finite {n : Int} (h : n.natAbs < overflow) :
    ∃ hrank, ofInt n = .finite (n < 0) ⟨rankRatio n.natAbs 1, hrank⟩ :=
  ⟨(rankRatio_lt_iff _).2 h, dif_pos _⟩

theorem signedUnits_rankRatio (n : Int) :
    signedUnits (n < 0) (rankRatio n.natAbs 1) = roundInt n * one := by
  rw [signedUnits, units_rankRatio, roundInt]
  generalize one = unit
  obtain hneg | rfl | hpos := lt_trichotomy n 0
  · simp [hneg, Int.sign_eq_neg_one_of_neg hneg]
  · simp [show roundNat 0 = 0 from rfl]
  · simp [hpos.le, Int.sign_eq_one_of_pos hpos]

theorem roundNat_eq_zero_iff {n : Nat} : roundNat n = 0 ↔ n = 0 := by
  refine ⟨fun h => ?_, fun h => by rw [h]; rfl⟩
  obtain hlow | hlow := (roundDiv_bounds n).1
  · rw [roundNat, hlow, Nat.pow_zero, Nat.mul_one] at h
    have hle := le_roundDiv n 1
    rw [Nat.div_one] at hle
    omega
  · have hpos := Nat.two_pow_pos (Nat.log2 n - 52)
    obtain hzero | hzero := Nat.mul_eq_zero.1 h
    · rw [hzero] at hlow
      exact absurd hlow (by decide)
    · exact absurd hzero hpos.ne'

theorem roundInt_lt_zero_iff {n : Int} : roundInt n < 0 ↔ n < 0 := by
  rw [roundInt]
  obtain hneg | rfl | hpos := lt_trichotomy n 0
  · have hne : roundNat n.natAbs ≠ 0 := mt roundNat_eq_zero_iff.1 (Int.natAbs_ne_zero.2 hneg.ne)
    rw [Int.sign_eq_neg_one_of_neg hneg]
    omega
  · simp
  · rw [Int.sign_eq_one_of_pos hpos]
    omega

theorem ofInt_add {m n : Int} (hm : m.natAbs < overflow) (hn : n.natAbs < overflow) :
    (ofInt m).add (ofInt n) = ofInt (roundInt m + roundInt n) := by
  obtain ⟨hrankm, hm⟩ := ofInt_eq_finite hm
  obtain ⟨hrankn, hn⟩ := ofInt_eq_finite hn
  have hone : (0 : Int) < one := Int.natCast_pos.2 unit_pos
  have hsum : signedUnits (m < 0) (rankRatio m.natAbs 1) +
      signedUnits (n < 0) (rankRatio n.natAbs 1) = (roundInt m + roundInt n) * one := by
    rw [signedUnits_rankRatio, signedUnits_rankRatio, Int.add_mul]
  have hsignm := roundInt_lt_zero_iff (n := m)
  have hsignn := roundInt_lt_zero_iff (n := n)
  rw [hm, hn, add, hsum, ofInt, rankRatio]
  generalize one = unit at *
  split
  · rename_i hzero
    have hk : roundInt m + roundInt n = 0 := (Int.mul_eq_zero.1 hzero).resolve_right hone.ne'
    have hpositive : ¬(m < 0 ∧ n < 0) := by
      rw [← hsignm, ← hsignn]
      omega
    have hnegative : (decide (m < 0) && decide (n < 0)) = false := by
      rwa [← Bool.decide_and, decide_eq_false_iff_not]
    rw [hnegative, hk, Int.natAbs_zero, Nat.zero_mul]
    rfl
  · have hlt : (roundInt m + roundInt n) * (unit : Int) < 0 ↔ roundInt m + roundInt n < 0 :=
      by simpa using mul_lt_mul_iff_left₀ (b := roundInt m + roundInt n) (c := 0) hone
    rw [Int.natAbs_mul, Int.natAbs_natCast, decide_eq_decide.2 hlt]

theorem ofInt_roundInt (n : Int) : ofInt (roundInt n) = ofInt n := by
  have hunits : units (rankRatio (roundInt n).natAbs 1) = units (rankRatio n.natAbs 1) := by
    have hsame := congrArg Int.natAbs (roundInt_eq_self_iff.2 (isExact_roundInt n))
    rw [natAbs_roundInt] at hsame
    rw [units_rankRatio, units_rankRatio, hsame, natAbs_roundInt]
  rw [ofInt, ofInt, units_strictMono.injective hunits, decide_eq_decide.2 roundInt_lt_zero_iff]

-- The exponents are variables, lest the powers be computed.
theorem two_mul_sub_pow (a b : Nat) :
    2 * (((2 ^ (a + 54) - 2 ^ a : Nat) : ℚ) * (2 ^ b : Nat)) =
      units ((a + 1 + b) * 2 ^ 52 + (2 ^ 53 - 1)) + units ((a + 2 + b) * 2 ^ 52 + 2 ^ 52) := by
  rw [units_eq (.inr (by decide)) (by decide), units_pow,
    Nat.cast_sub (Nat.pow_le_pow_right Nat.two_pos (Nat.le_add_right a 54))]
  push_cast
  ring

theorem two_mul_overflow :
    2 * ((overflow : ℚ) * one) = units (rankCount - 1) + units rankCount := by
  obtain ⟨k, hk, hone⟩ := exists_one_eq
  have hlast : rankCount - 1 = (970 + 1 + k) * 2 ^ 52 + (2 ^ 53 - 1) := hk ▸ rfl
  have hcount : rankCount = (970 + 2 + k) * 2 ^ 52 + 2 ^ 52 := hk ▸ rfl
  rw [hlast, hcount, hone, overflow, show 1024 = 970 + 54 from rfl]
  exact two_mul_sub_pow 970 k

/-- The last rank is odd, so the bound itself is rounded away from it. -/
theorem IsNearest.lt_rankCount_iff {q : ℚ} {rank : Nat} (h : IsNearest q rank) :
    rank < rankCount ↔ q < overflow := by
  have hmiddle := two_mul_overflow
  have hcmp : q < overflow ↔ q * one < overflow * one := (mul_lt_mul_iff_left₀ one_pos).symm
  have hstep : (units (rankCount - 1) : ℚ) < units rankCount :=
    Nat.cast_lt.2 (units_strictMono (by decide))
  rw [hcmp]
  rw [IsNearest] at h
  generalize q * (one : ℚ) = x at h ⊢
  generalize (overflow : ℚ) * one = bound at hmiddle ⊢
  constructor
  · intro hrank
    by_contra hlarge
    have hunits : (units rank : ℚ) ≤ units (rankCount - 1) :=
      Nat.cast_le.2 (units_strictMono.monotone (Nat.le_sub_one_of_lt hrank))
    have hfar : |x - units rankCount| ≤ x - units (rankCount - 1) :=
      abs_le.2 ⟨by linarith, by linarith⟩
    have hnear : x - units rank ≤ |x - units rank| := le_abs_self _
    obtain hless | ⟨heq, heven⟩ := h rankCount hrank.ne'
    · linarith
    · have hlast : rank = rankCount - 1 :=
        units_strictMono.injective (Nat.cast_injective (R := ℚ) (by linarith))
      rw [hlast] at heven
      exact absurd heven (by decide)
  · intro hsmall
    by_contra hrank
    have hunits : (units rankCount : ℚ) ≤ units rank :=
      Nat.cast_le.2 (units_strictMono.monotone (not_lt.1 hrank))
    have hless : |x - units (rankCount - 1)| < |x - units rank| := by
      rw [abs_sub_comm x (units rank)]
      exact (abs_lt.2 ⟨by linarith, by linarith⟩).trans_le (le_abs_self _)
    have hne : rankCount - 1 ≠ rank := (Nat.lt_of_lt_of_le (by decide) (not_lt.1 hrank)).ne
    have hle := (h (rankCount - 1) hne).elim le_of_lt fun heq => heq.1.le
    exact absurd hless (not_lt.2 hle)

theorem ofDecimal_of_lt {d : Nat} {e : Int} (h : (d * 10 ^ e : ℚ) < overflow) (negative : Bool) :
    ∃ rank, ofDecimal negative d e = .finite negative rank := by
  have hrank := (isNearest_rankDecimal d e).lt_rankCount_iff.2 h
  exact ⟨⟨_, hrank⟩, by rw [ofDecimal_eq_ofRank, ofRank, dif_pos hrank]⟩

theorem ofDecimal_of_le {d : Nat} {e : Int} (h : (overflow : ℚ) ≤ d * 10 ^ e) (negative : Bool) :
    ofDecimal negative d e = .infinite negative := by
  have hrank := mt (isNearest_rankDecimal d e).lt_rankCount_iff.1 (not_lt.2 h)
  rw [ofDecimal_eq_ofRank, ofRank, dif_neg hrank]

end StructLang.Double
