import Mathlib.Algebra.Order.Field.Rat
import Mathlib.Tactic.FieldSimp
import Mathlib.Tactic.Linarith
import Mathlib.Tactic.Positivity
import StructLang.Number.Shortest
import StructLang.Proofs.Number.Range

/-!
Rounding to the nearest double. Neighbouring ranks are the neighbours of a number among the doubles,
so the rank that is computed is nearest to it, and of two that are as near it is the even one. The
digits that a double is written with read back as it in this sense.
-/

namespace StructLang.Double

/-- The rank is nearest to the number: any other is further away, or as far and this one is even. -/
def IsNearest (q : ℚ) (rank : Nat) : Prop :=
  ∀ other, other ≠ rank → |q * one - units rank| < |q * one - units other| ∨
    |q * one - units rank| = |q * one - units other| ∧ rank % 2 = 0

theorem units_eq {s k : Nat} (h : s = 0 ∨ 2 ^ 52 ≤ k) (hk : k ≤ 2 ^ 53) :
    units (s * 2 ^ 52 + k) = k * 2 ^ s := by
  obtain hlt | hge := Nat.lt_or_ge k (2 ^ 52)
  · obtain rfl : s = 0 := by omega
    have hscale : scale k = 0 := by
      simp only [scale, Nat.pow_eq]
      omega
    have hmantissa : mantissa k = k := if_pos hlt
    rw [Nat.zero_mul, Nat.zero_add, units, hscale, hmantissa, Nat.pow_eq]
  · obtain hlt | rfl := Nat.lt_or_eq_of_le hk
    · have hscale : scale (s * 2 ^ 52 + k) = s := by
        simp only [scale, Nat.pow_eq]
        omega
      have hmantissa : mantissa (s * 2 ^ 52 + k) = k := by
        simp only [mantissa, Nat.pow_eq]
        split <;> omega
      rw [units, hscale, hmantissa, Nat.pow_eq]
    · have hscale : scale (s * 2 ^ 52 + 2 ^ 53) = s + 1 := by
        simp only [scale, Nat.pow_eq]
        omega
      have hmantissa : mantissa (s * 2 ^ 52 + 2 ^ 53) = 2 ^ 52 := by
        simp only [mantissa, Nat.pow_eq]
        split <;> omega
      rw [units, hscale, hmantissa, Nat.pow_eq, Nat.pow_succ]
      omega

theorem exists_scale (rank : Nat) :
    ∃ s k, rank = s * 2 ^ 52 + k ∧ (s = 0 ∨ 2 ^ 52 ≤ k) ∧ k < 2 ^ 53 := by
  refine ⟨rank / 2 ^ 52 - 1, rank - (rank / 2 ^ 52 - 1) * 2 ^ 52, ?_, ?_, ?_⟩
  all_goals omega

theorem units_strictMono : StrictMono units := by
  refine strictMono_nat_of_lt_succ fun rank => ?_
  obtain ⟨s, k, rfl, hk, hlt⟩ := exists_scale rank
  rw [units_eq hk hlt.le, Nat.add_assoc, units_eq (hk.imp_right (Nat.le_succ_of_le)) hlt]
  exact Nat.mul_lt_mul_of_pos_right (Nat.lt_succ_self k) (Nat.two_pow_pos s)

theorem isNearest_of_eq {q : ℚ} {rank : Nat} (h : q * one = units rank) : IsNearest q rank := by
  intro other hother
  left
  rw [h, sub_self, abs_zero, abs_pos, sub_ne_zero]
  exact fun heq => hother (units_strictMono.injective (Nat.cast_injective heq).symm)

theorem IsNearest.rank_eq_zero {rank : Nat} (h : IsNearest 0 rank) : rank = 0 := by
  by_contra hne
  have hunits : units 0 = 0 := rfl
  have hpos : 0 < units rank := by
    rw [← hunits]
    exact units_strictMono (Nat.pos_of_ne_zero hne)
  have hdistance := h 0 (Ne.symm hne)
  rw [hunits] at hdistance
  simp only [zero_mul, zero_sub, abs_neg, Nat.cast_zero, neg_zero, abs_zero, Nat.abs_cast]
    at hdistance
  obtain hlt | ⟨heq, -⟩ := hdistance
  · exact absurd hlt (not_lt.2 (Nat.cast_nonneg _))
  · exact hpos.ne' (Nat.cast_eq_zero.1 heq)

/-- Two ranks as near as each other are not both even, unless one between them is nearer. -/
theorem IsNearest.le {q : ℚ} {r s : Nat} (h : IsNearest q r) (h' : IsNearest q s) : s ≤ r := by
  by_contra hnot
  have hlt : r < s := not_le.1 hnot
  obtain ⟨hdistance, hr, hs⟩ :
      |q * one - units r| = |q * one - units s| ∧ r % 2 = 0 ∧ s % 2 = 0 := by
    obtain hless | ⟨heq, hr⟩ := h s hlt.ne'
    · obtain hmore | ⟨heq, -⟩ := h' r hlt.ne
      · exact absurd hless hmore.asymm
      · exact absurd heq.symm hless.ne
    · obtain hmore | ⟨-, hs⟩ := h' r hlt.ne
      · exact absurd heq.symm hmore.ne
      · exact ⟨heq, hr, hs⟩
  have hlow : (units r : ℚ) < units (r + 1) := Nat.cast_lt.2 (units_strictMono (Nat.lt_succ_self r))
  have hhigh : (units (r + 1) : ℚ) < units s := Nat.cast_lt.2 (units_strictMono (by omega))
  have hbetween : |q * one - units r| ≤ |q * one - units (r + 1)| :=
    (h (r + 1) (Nat.succ_ne_self r)).elim le_of_lt fun heq => heq.1.le
  generalize q * (one : ℚ) = x at *
  obtain heq | hmiddle := abs_eq_abs.1 hdistance
  · linarith
  · have hnearer : |x - units (r + 1)| < x - units r := abs_lt.2 ⟨by linarith, by linarith⟩
    exact absurd (hbetween.trans_lt hnearer) (not_lt.2 (le_abs_self _))

theorem IsNearest.unique {q : ℚ} {r s : Nat} (h : IsNearest q r) (h' : IsNearest q s) : r = s :=
  le_antisymm (h'.le h) (h.le h')

theorem isNearest_of_between {q : ℚ} {low rank : Nat} (hlow : (units low : ℚ) ≤ q * one)
    (hhigh : q * one < units (low + 1))
    (h : rank = low ∧ (2 * (q * one) < units low + units (low + 1) ∨
        2 * (q * one) = units low + units (low + 1) ∧ low % 2 = 0) ∨
      rank = low + 1 ∧ ((units low : ℚ) + units (low + 1) < 2 * (q * one) ∨
        2 * (q * one) = units low + units (low + 1) ∧ low % 2 = 1)) : IsNearest q rank := by
  rw [IsNearest]
  generalize q * (one : ℚ) = x at hlow hhigh h ⊢
  have hdlow : |x - units low| = x - units low := abs_of_nonneg (by linarith)
  have hdhigh : |x - units (low + 1)| = units (low + 1) - x := by
    rw [abs_of_neg (by linarith), neg_sub]
  intro other hother
  obtain hlt | rfl | rfl | hgt : other < low ∨ other = low ∨ other = low + 1 ∨ low + 1 < other := by
    omega
  · have hfar : (units other : ℚ) < units low := Nat.cast_lt.2 (units_strictMono hlt)
    have hdother : |x - units other| = x - units other := abs_of_pos (by linarith)
    left
    obtain ⟨rfl, _⟩ | ⟨rfl, hnear | ⟨hnear, _⟩⟩ := h <;> linarith
  · obtain ⟨rfl, _⟩ | ⟨rfl, hnear | ⟨hnear, hodd⟩⟩ := h
    · exact absurd rfl hother
    · left
      linarith
    · exact .inr ⟨by linarith, by omega⟩
  · obtain ⟨rfl, hnear | ⟨hnear, heven⟩⟩ | ⟨rfl, _⟩ := h
    · left
      linarith
    · exact .inr ⟨by linarith, heven⟩
    · exact absurd rfl hother
  · have hfar : (units (low + 1) : ℚ) < units other := Nat.cast_lt.2 (units_strictMono hgt)
    have hdother : |x - units other| = units other - x := by
      rw [abs_of_neg (by linarith), neg_sub]
    left
    obtain ⟨rfl, hnear | ⟨hnear, _⟩⟩ | ⟨rfl, _⟩ := h <;> linarith

theorem roundDiv_cases {n d : Nat} :
    roundDiv n d = n / d ∧ (2 * (n % d) < d ∨ 2 * (n % d) = d ∧ n / d % 2 = 0) ∨
      roundDiv n d = n / d + 1 ∧ (d < 2 * (n % d) ∨ 2 * (n % d) = d ∧ n / d % 2 = 1) := by
  rw [roundDiv]
  split
  · omega
  · split <;> omega

theorem div_bounds {n d s : Nat} (hs : s = Nat.log2 (n / d) - 52) :
    (s = 0 ∨ 2 ^ 52 ≤ n / (d * 2 ^ s)) ∧ n / (d * 2 ^ s) < 2 ^ 53 := by
  rw [← Nat.div_div_eq_div_mul]
  generalize n / d = m at hs
  refine ⟨?_, ?_⟩
  · obtain rfl | hm := Nat.eq_zero_or_pos s
    · exact .inl rfl
    · refine .inr (le_div_pow ?_ (by omega))
      rintro rfl
      simp at hs
      omega
  · exact div_pow_lt (by omega)

theorem isNearest_rankUnits {n d : Nat} (hd : 0 < d) {q : ℚ} (hq : q * one * d = n) :
    IsNearest q (rankUnits n d) := by
  rw [rankUnits]
  generalize hs : Nat.log2 (n / d) - 52 = s
  obtain ⟨hlow, hhigh⟩ := div_bounds hs.symm
  simp only [Nat.pow_eq]
  have hpos : 0 < d * 2 ^ s := Nat.mul_pos hd (Nat.two_pow_pos s)
  have hmod := Nat.mod_lt n hpos
  have hdiv : n = d * 2 ^ s * (n / (d * 2 ^ s)) + n % (d * 2 ^ s) := (Nat.div_add_mod _ _).symm
  have hround := roundDiv_cases (n := n) (d := d * 2 ^ s)
  generalize n / (d * 2 ^ s) = k at *
  generalize n % (d * 2 ^ s) = r at *
  have hunits : units (s * 2 ^ 52 + k) = k * 2 ^ s := units_eq hlow hhigh.le
  have hunits' : units (s * 2 ^ 52 + k + 1) = (k + 1) * 2 ^ s := by
    rw [Nat.add_assoc, units_eq (hlow.imp_right Nat.le_succ_of_le) hhigh]
  -- what the scale leaves over, against half a step of it
  have hD : (0 : ℚ) < d := Nat.cast_pos.2 hd
  have hx : q * one = k * 2 ^ s + r / d := by
    rw [eq_comm, ← mul_left_inj' hD.ne', hq, hdiv]
    push_cast
    field_simp
  have hlt {a : Nat} (h : a * r < d * 2 ^ s) : a * (r / d : ℚ) < 2 ^ s := by
    rw [← mul_div_assoc, div_lt_iff₀ hD, mul_comm (2 ^ s)]
    exact_mod_cast h
  have hgt (h : d * 2 ^ s < 2 * r) : (2 ^ s : ℚ) < 2 * (r / d) := by
    rw [← mul_div_assoc, lt_div_iff₀ hD, mul_comm]
    exact_mod_cast h
  have heq (h : 2 * r = d * 2 ^ s) : 2 * (r / d : ℚ) = 2 ^ s := by
    rw [← mul_div_assoc, div_eq_iff hD.ne', mul_comm (2 ^ s)]
    exact_mod_cast h
  have hone : (r / d : ℚ) < 2 ^ s := by simpa using hlt (a := 1) (by simpa using hmod)
  have hnonneg : (0 : ℚ) ≤ r / d := by positivity
  have hbelow : (units (s * 2 ^ 52 + k) : ℚ) ≤ q * one := by
    rw [hunits, hx]
    push_cast
    linarith
  have habove : q * one < units (s * 2 ^ 52 + k + 1) := by
    rw [hunits', hx]
    push_cast
    linarith
  refine isNearest_of_between hbelow habove ?_
  rw [hunits, hunits', hx]
  push_cast
  obtain ⟨hrank, hless | ⟨hhalf, heven⟩⟩ | ⟨hrank, hmore | ⟨hhalf, hodd⟩⟩ := hround
  · have hless := hlt hless
    exact .inl ⟨by rw [hrank], .inl (by push_cast at hless; linarith)⟩
  · have hhalf := heq hhalf
    exact .inl ⟨by rw [hrank], .inr ⟨by linarith, by omega⟩⟩
  · have hmore := hgt hmore
    exact .inr ⟨by rw [hrank, Nat.add_assoc], .inl (by linarith)⟩
  · have hhalf := heq hhalf
    exact .inr ⟨by rw [hrank, Nat.add_assoc], .inr ⟨by linarith, by omega⟩⟩

theorem isNearest_rankRatio {n d : Nat} (hd : 0 < d) : IsNearest (n / d) (rankRatio n d) := by
  have hD : (d : ℚ) ≠ 0 := Nat.cast_ne_zero.2 hd.ne'
  refine isNearest_rankUnits hd ?_
  generalize one = u
  push_cast
  field_simp

theorem isNearest_rankDecimal (d : Nat) (e : Int) : IsNearest (d * 10 ^ e) (rankDecimal d e) := by
  rw [rankDecimal]
  split
  · rename_i he
    have hvalue : (d * 10 ^ e : ℚ) = (d * Nat.pow 10 e.toNat : Nat) / (1 : Nat) := by
      conv_lhs => rw [← Int.toNat_of_nonneg he, zpow_natCast]
      simp
    rw [hvalue]
    exact isNearest_rankRatio Nat.one_pos
  · rename_i he
    have hvalue : (d * 10 ^ e : ℚ) = d / (Nat.pow 10 (-e).toNat : Nat) := by
      have hneg : e = -((-e).toNat : Int) := by omega
      conv_lhs => rw [hneg, zpow_neg, zpow_natCast]
      simp [div_eq_mul_inv]
    rw [hvalue]
    exact isNearest_rankRatio (Nat.pow_pos (by decide))

theorem rankDecimal_of_neighbour? {rank : Nat} {e : Int} {p : Nat × Int}
    (h : neighbour? rank e = some p) : rankDecimal p.1 p.2 = rank := by
  unfold neighbour? at h
  extract_lets at h
  split at h
  · rename_i hlow
    rw [← Option.some.inj h]
    exact hlow.1
  · split at h
    · rename_i hhigh
      rw [← Option.some.inj h]
      exact hhigh
    · cases h

-- The exponent is a variable, lest the powers be computed.
theorem pow_five_mul (u k : Nat) :
    ((u * Nat.pow 5 k : Nat) * 10 ^ (-(k : Int)) * (Nat.pow 2 k : Nat) : ℚ) = u := by
  have hten : (10 : ℚ) ^ k = 5 ^ k * 2 ^ k := by rw [← mul_pow]; norm_num
  simp only [Nat.pow_eq, zpow_neg, zpow_natCast, hten]
  push_cast
  field_simp

theorem isNearest_exactDecimal (rank : Nat) :
    IsNearest ((exactDecimal rank).1 * 10 ^ (exactDecimal rank).2) rank := by
  have hexponent : (exactDecimal rank).2 = -((1074 : Nat) : Int) := rfl
  refine isNearest_of_eq ?_
  rw [hexponent]
  unfold exactDecimal one
  generalize 1074 = k
  exact pow_five_mul (units rank) k

theorem isNearest_shortest (rank : Nat) :
    IsNearest ((shortest rank).1 * 10 ^ (shortest rank).2) rank := by
  rw [shortest]
  cases h : (List.range 17).findSome? fun (count : Nat) =>
      neighbour? rank (pointOf (units rank) - (count + 1)) with
  | none => exact isNearest_exactDecimal rank
  | some p =>
    obtain ⟨count, _, hcount⟩ := List.exists_of_findSome?_eq_some h
    have hnearest := isNearest_rankDecimal p.1 p.2
    rwa [rankDecimal_of_neighbour? hcount] at hnearest

theorem natAbs_of_toInt? {negative : Bool} {rank : Fin rankCount} {n : Int}
    (h : (finite negative rank).toInt? = some n) :
    n.natAbs * one = units rank ∧ (n < 0 ↔ negative ∧ rank.val ≠ 0) := by
  have hzero : units rank = 0 ↔ rank.val = 0 := units_strictMono.injective.eq_iff' rfl
  rw [toInt?] at h
  -- The unit is made a variable, lest it be computed.
  generalize one = unit at *
  split at h
  · rename_i hmod
    have hmul : units rank / unit * unit = units rank :=
      Nat.div_mul_cancel (Nat.dvd_of_mod_eq_zero hmod)
    have hdiv : units rank / unit = 0 ↔ rank.val = 0 := by
      rw [← hzero]
      constructor
      · intro hquotient
        rw [← hmul, hquotient, Nat.zero_mul]
      · intro hunits
        rw [hunits, Nat.zero_div]
    cases h
    rw [Ne, ← hdiv]
    generalize units rank / unit = k at *
    cases negative with
    | false => simpa using hmul
    | true =>
      simp only [if_true, Int.natAbs_neg, Int.natAbs_natCast]
      exact ⟨hmul, by simp [Nat.pos_iff_ne_zero]⟩
  · cases h

end StructLang.Double
