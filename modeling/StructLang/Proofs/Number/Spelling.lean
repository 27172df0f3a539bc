import Mathlib.Tactic.Ring
import StructLang.Proofs.Number.Decimal
import StructLang.Proofs.Number.Nearest

namespace StructLang

namespace Double

def exponentValue (negative : Bool) (es : List Char) : Int :=
  if negative then -(Nat.ofDigitChars 10 es 0 : Int) else Nat.ofDigitChars 10 es 0

inductive Spelled : List Char → ℚ → Prop
  | fraction : ds ≠ [] → (∀ c ∈ ds, c.isDigit) → (∀ c ∈ fs, c.isDigit) →
    Spelled (ds ++ '.' :: fs) (Nat.ofDigitChars 10 (ds ++ fs) 0 * 10 ^ (-(fs.length : Int)))
  | exponent : ds ≠ [] → (∀ c ∈ ds, c.isDigit) → es ≠ [] → (∀ c ∈ es, c.isDigit) →
    Spelled (ds ++ 'e' :: (if negative then '-' else '+') :: es)
      (Nat.ofDigitChars 10 ds 0 * 10 ^ exponentValue negative es)
  | both : ds ≠ [] → (∀ c ∈ ds, c.isDigit) → (∀ c ∈ fs, c.isDigit) → es ≠ [] →
    (∀ c ∈ es, c.isDigit) →
    Spelled (ds ++ '.' :: (fs ++ 'e' :: (if negative then '-' else '+') :: es))
      (Nat.ofDigitChars 10 (ds ++ fs) 0 * 10 ^ (exponentValue negative es - fs.length))

theorem isDigit_of_mem_zeros {n : Int} {c : Char} (h : c ∈ zeros n) : c.isDigit := by
  rw [List.eq_of_mem_replicate h]
  rfl

theorem ofDigitChars_zeros_append (n : Int) (ds : List Char) :
    Nat.ofDigitChars 10 (zeros n ++ ds) 0 = Nat.ofDigitChars 10 ds 0 := by
  rw [Nat.ofDigitChars_append, zeros, Nat.ofDigitChars_replicate_zero, Nat.mul_zero]

theorem spelled_positional {ds : List Char} (hne : ds ≠ []) (hds : ∀ c ∈ ds, c.isDigit)
    (point : Int) :
    Spelled (positional ds point) (Nat.ofDigitChars 10 ds 0 * 10 ^ (point - ds.length)) := by
  rw [positional]
  split
  · rename_i hpoint
    have hall : ∀ c ∈ zeros (-point) ++ ds, c.isDigit :=
      List.forall_mem_append.2 ⟨fun c hc => isDigit_of_mem_zeros hc, hds⟩
    have hspelled := Spelled.fraction (List.cons_ne_nil '0' []) (by simp) hall
    have hvalue : Nat.ofDigitChars 10 (['0'] ++ (zeros (-point) ++ ds)) 0 =
        Nat.ofDigitChars 10 ds 0 := by
      rw [← ofDigitChars_zeros_append (-point) ds]
      rfl
    have hexponent : -((zeros (-point) ++ ds).length : Int) = point - ds.length := by
      rw [List.length_append, zeros, List.length_replicate]
      omega
    rwa [hvalue, hexponent] at hspelled
  · split
    · rename_i hpoint hlength
      have hall : ∀ c ∈ ds ++ zeros (point - ds.length), c.isDigit :=
        List.forall_mem_append.2 ⟨hds, fun c hc => isDigit_of_mem_zeros hc⟩
      have hzero : ∀ c ∈ ['0'], c.isDigit := by simp
      have hspelled := Spelled.fraction (by simp [hne]) hall hzero
      obtain ⟨k, hk⟩ := Int.eq_ofNat_of_zero_le (Int.sub_nonneg.2 hlength)
      have hvalue : (Nat.ofDigitChars 10 (ds ++ zeros (point - ds.length) ++ ['0']) 0 : ℚ) *
          10 ^ (-(['0'].length : Int)) = Nat.ofDigitChars 10 ds 0 * 10 ^ (point - ds.length) := by
        rw [hk, Nat.ofDigitChars_append, Nat.ofDigitChars_append, zeros, Int.toNat_natCast,
          Nat.ofDigitChars_replicate_zero, zpow_natCast, List.length_singleton, Nat.cast_one,
          zpow_neg_one]
        simp only [Nat.ofDigitChars_cons, Nat.ofDigitChars_nil]
        push_cast
        ring
      rwa [hvalue] at hspelled
    · rename_i hpoint hlength
      have htake : ∀ c ∈ ds.take point.toNat, c.isDigit :=
        fun c hc => hds c (List.mem_of_mem_take hc)
      have hdrop : ∀ c ∈ ds.drop point.toNat, c.isDigit :=
        fun c hc => hds c (List.mem_of_mem_drop hc)
      have hnil : ds.take point.toNat ≠ [] := by
        rw [Ne, List.take_eq_nil_iff]
        exact not_or.2 ⟨by omega, hne⟩
      have hspelled := Spelled.fraction hnil htake hdrop
      have hexponent : -((ds.drop point.toNat).length : Int) = point - ds.length := by
        rw [List.length_drop]
        omega
      rwa [List.take_append_drop, hexponent] at hspelled

theorem isDigit_of_mem_toDigits {n : Nat} {c : Char} (h : c ∈ Nat.toDigits 10 n) : c.isDigit :=
  Nat.isDigit_of_mem_toDigits (by decide) (by decide) h

theorem exists_exponentValue (e : Int) :
    ∃ es, zeros (2 - (Nat.toDigits 10 e.natAbs).length) ++ Nat.toDigits 10 e.natAbs = es ∧
      es ≠ [] ∧ (∀ c ∈ es, c.isDigit) ∧ exponentValue (decide (e < 0)) es = e := by
  refine ⟨_, rfl, by simp [Nat.toDigits_ne_nil], ?_, ?_⟩
  · exact List.forall_mem_append.2 ⟨fun c hc => isDigit_of_mem_zeros hc,
      fun c hc => isDigit_of_mem_toDigits hc⟩
  · rw [exponentValue, ofDigitChars_zeros_append, Nat.ofDigitChars_ten_toDigits]
    by_cases h : e < 0
    · rw [if_pos (by simpa using h)]
      omega
    · rw [if_neg (by simpa using h)]
      omega

theorem spelled_scientific {ds : List Char} (hne : ds ≠ []) (hds : ∀ c ∈ ds, c.isDigit)
    (point : Int) :
    Spelled (scientific ds point) (Nat.ofDigitChars 10 ds 0 * 10 ^ (point - ds.length)) := by
  obtain ⟨d, fs, rfl⟩ := List.exists_cons_of_ne_nil hne
  rw [List.forall_mem_cons] at hds
  have hd : ∀ c ∈ [d], c.isDigit := List.forall_mem_singleton.2 hds.1
  obtain ⟨es, hes, hnil, hall, hvalue⟩ := exists_exponentValue (point - 1)
  simp only [scientific, List.append_assoc, hes]
  cases fs with
  | nil =>
    have hspelled : Spelled ([d] ++ 'e' :: (if decide (point - 1 < 0) then '-' else '+') :: es) _ :=
      .exponent (List.cons_ne_nil d []) hd hnil hall
    rw [hvalue] at hspelled
    simpa using hspelled
  | cons f fs =>
    have hspelled : Spelled ([d] ++ '.' :: (f :: fs ++ 'e' ::
        (if decide (point - 1 < 0) then '-' else '+') :: es)) _ :=
      .both (List.cons_ne_nil d []) hd hds.2 hnil hall
    have hpower : point - 1 - ((f :: fs).length : Int) = point - (d :: f :: fs).length := by
      simp only [List.length_cons]
      omega
    rw [hvalue, hpower] at hspelled
    simpa using hspelled

theorem exists_zeros (ds : List Char) :
    ∃ n, ds = (ds.reverse.dropWhile (· = '0')).reverse ++ List.replicate n '0' := by
  refine ⟨(ds.reverse.takeWhile (· = '0')).length, ?_⟩
  have hzeros : ds.reverse.takeWhile (· = '0') =
      List.replicate (ds.reverse.takeWhile (· = '0')).length '0' := by
    refine List.eq_replicate_of_mem fun c hc => ?_
    simpa using List.mem_takeWhile_imp hc
  rw [← List.reverse_replicate, ← hzeros, ← List.reverse_append, List.takeWhile_append_dropWhile,
    List.reverse_reverse]

theorem exists_significant {d : Nat} (hd : d ≠ 0) :
    ∃ ds n, ((Nat.toDigits 10 d).reverse.dropWhile (· = '0')).reverse = ds ∧
      Nat.toDigits 10 d = ds ++ List.replicate n '0' ∧ d = 10 ^ n * Nat.ofDigitChars 10 ds 0 ∧
      ds ≠ [] ∧ ∀ c ∈ ds, c.isDigit := by
  obtain ⟨n, hn⟩ := exists_zeros (Nat.toDigits 10 d)
  generalize ((Nat.toDigits 10 d).reverse.dropWhile (· = '0')).reverse = ds at hn
  have hvalue : d = 10 ^ n * Nat.ofDigitChars 10 ds 0 := by
    rw [← Nat.ofDigitChars_replicate_zero, ← Nat.ofDigitChars_append, ← hn,
      Nat.ofDigitChars_ten_toDigits]
  have hne : ds ≠ [] := by
    rintro rfl
    exact hd hvalue
  exact ⟨ds, n, rfl, hn, hvalue, hne, fun c hc =>
    isDigit_of_mem_toDigits (hn ▸ List.mem_append_left _ hc)⟩

theorem spelled_decimalChars {d : Nat} (hd : d ≠ 0) (e : Int) :
    Spelled (decimalChars d e) (d * 10 ^ e) := by
  obtain ⟨ds, n, hstrip, hn, hvalue, hne, hds⟩ := exists_significant hd
  rw [decimalChars, hstrip]
  have hpower : (d * 10 ^ e : ℚ) = Nat.ofDigitChars 10 ds 0 *
      10 ^ ((Nat.toDigits 10 d).length + e - (ds.length : Int)) := by
    have hlength : (Nat.toDigits 10 d).length + e - (ds.length : Int) = n + e := by
      rw [hn, List.length_append, List.length_replicate]
      push_cast
      ring
    rw [hlength, zpow_add₀ (by norm_num), zpow_natCast]
    conv_lhs => rw [hvalue]
    push_cast
    ring
  rw [hpower, layout]
  split
  · exact spelled_positional hne hds _
  · exact spelled_scientific hne hds _

theorem shortest_ne_zero {rank : Nat} (h : rank ≠ 0) : (shortest rank).1 ≠ 0 := by
  intro hzero
  have hnearest := isNearest_shortest rank
  rw [hzero, Nat.cast_zero, zero_mul] at hnearest
  exact h hnearest.rank_eq_zero

theorem spelled_magnitudeChars (rank : Nat) :
    ∃ q, IsNearest q rank ∧ Spelled (magnitudeChars rank) q := by
  rw [magnitudeChars]
  split
  · rename_i hrank
    have hspelled : Spelled (['0'] ++ '.' :: ['0']) _ := .fraction (by simp) (by simp) (by simp)
    refine ⟨_, isNearest_of_eq ?_, hspelled⟩
    have hdigits : Nat.ofDigitChars 10 (['0'] ++ ['0']) 0 = 0 := rfl
    have hunits : units 0 = 0 := rfl
    rw [hrank, hdigits, hunits, Nat.cast_zero, zero_mul, zero_mul]
  · rename_i hrank
    exact ⟨_, isNearest_shortest rank, spelled_decimalChars (shortest_ne_zero hrank) _⟩

theorem Spelled.isMark {m : List Char} {q : ℚ} (h : Spelled m q) {c : Char} (hc : c ∈ m) :
    c.isDigit ∨ c ∈ ['.', 'e', '-', '+'] := by
  cases h with
  | fraction _ hds hfs =>
    simp only [List.mem_append, List.mem_cons] at hc
    obtain hc | rfl | hc := hc
    · exact .inl (hds c hc)
    · decide
    · exact .inl (hfs c hc)
  | exponent _ hds _ hes => grind
  | both _ hds hfs _ hes => grind

theorem Spelled.exists_digits {m : List Char} {q : ℚ} (h : Spelled m q) :
    ∃ ds rest, m = ds ++ rest ∧ ds ≠ [] ∧ ∀ c ∈ ds, c.isDigit := by
  cases h with
  | fraction hne hds _ => exact ⟨_, _, rfl, hne, hds⟩
  | exponent hne hds _ _ => exact ⟨_, _, rfl, hne, hds⟩
  | both hne hds _ _ _ => exact ⟨_, _, rfl, hne, hds⟩

theorem Spelled.any_mark {m : List Char} {q : ℚ} (h : Spelled m q) :
    m.any fun c => c == '.' || c == 'e' := by
  cases h <;> simp

theorem bounds_of_length {d : Nat} (hd : d ≠ 0) (e : Int) :
    (10 : ℚ) ^ ((Nat.toDigits 10 d).length + e - 1) ≤ d * 10 ^ e ∧
      (d * 10 ^ e : ℚ) < 10 ^ ((Nat.toDigits 10 d).length + e) := by
  have hpos : 0 < (Nat.toDigits 10 d).length := List.length_pos_iff.2 Nat.toDigits_ne_nil
  have hhigh : d < 10 ^ (Nat.toDigits 10 d).length :=
    (Nat.length_toDigits_le_iff (by decide) hpos).1 (Nat.le_refl _)
  have hlow : 10 ^ ((Nat.toDigits 10 d).length - 1) ≤ d := by
    obtain hone | hmore := Nat.eq_or_lt_of_le hpos
    · rw [← hone]
      exact Nat.pos_of_ne_zero hd
    · by_contra hlt
      have hle := (Nat.length_toDigits_le_iff (by decide) (by omega)).2 (Nat.not_le.1 hlt)
      omega
  generalize (Nat.toDigits 10 d).length = k at *
  have hpower : (0 : ℚ) < 10 ^ e := zpow_pos (by norm_num) e
  obtain ⟨k, rfl⟩ := Nat.exists_eq_succ_of_ne_zero hpos.ne'
  constructor
  · have heq : ((k.succ : Nat) : Int) + e - 1 = k + e := by omega
    rw [heq, zpow_add₀ (by norm_num), zpow_natCast]
    exact mul_le_mul_of_nonneg_right (by exact_mod_cast hlow) hpower.le
  · rw [zpow_add₀ (by norm_num), zpow_natCast]
    exact mul_lt_mul_of_pos_right (by exact_mod_cast hhigh) hpower

-- The powers are compared by their bases, lest they be computed.
theorem two_pow_lt {k : Nat} (h : k ≤ 1200) : (2 : ℚ) ^ k < 10 ^ 400 :=
  calc (2 : ℚ) ^ k ≤ 2 ^ (3 * 400) := pow_le_pow_right₀ (by norm_num) h
    _ = (2 ^ 3) ^ 400 := pow_mul 2 3 400
    _ < 10 ^ 400 := pow_lt_pow_left₀ (by norm_num) (by norm_num) (by norm_num)

theorem units_pow (a b : Nat) :
    (units ((a + b) * 2 ^ 52 + 2 ^ 52) : ℚ) = 2 ^ (52 + a) * (2 ^ b : Nat) := by
  rw [units_eq (.inr le_rfl) (Nat.pow_le_pow_right Nat.two_pos (by omega))]
  push_cast
  ring

theorem units_rankCount : (units rankCount : ℚ) = 2 ^ 1024 * one := by
  obtain ⟨k, hk, hone⟩ := exists_one_eq
  have hcount : rankCount = (972 + k) * 2 ^ 52 + 2 ^ 52 := hk ▸ rfl
  rw [hcount, hone, show 1024 = 52 + 972 from rfl]
  exact units_pow 972 k

theorem one_pos : (0 : ℚ) < one := Nat.cast_pos.2 unit_pos

theorem IsNearest.lt {q : ℚ} {rank : Nat} (h : IsNearest q rank) (hrank : rank < rankCount) :
    q < 10 ^ 400 := by
  have hlt : (units rank : ℚ) < units rankCount := Nat.cast_lt.2 (units_strictMono hrank)
  have hle : |q * one - units rank| ≤ |q * one - units rankCount| :=
    (h rankCount hrank.ne').elim le_of_lt fun heq => heq.1.le
  have hbelow : q * one < units rankCount := by
    by_contra hnot
    rw [not_lt] at hnot
    rw [abs_of_nonneg (by linarith), abs_of_nonneg (by linarith)] at hle
    linarith
  rw [units_rankCount] at hbelow
  exact (lt_of_mul_lt_mul_right hbelow one_pos.le).trans (two_pow_lt (by omega))

theorem IsNearest.eq_zero {q : ℚ} {rank : Nat} (h : IsNearest q rank) (hq : 0 ≤ q)
    (hsmall : q * 10 ^ 400 < 1) : rank = 0 := by
  by_contra hrank
  have hunit : (1 : ℚ) ≤ units rank :=
    Nat.one_le_cast.2 (units_strictMono (Nat.pos_of_ne_zero hrank))
  have hzero : (units 0 : ℚ) = 0 := Nat.cast_eq_zero.2 rfl
  have hle : |q * one - units rank| ≤ |q * one - units 0| :=
    (h 0 (Ne.symm hrank)).elim le_of_lt fun heq => heq.1.le
  have hhalf : units rank ≤ 2 * (q * one) := by
    have hdistance := neg_abs_le (q * one - units rank)
    rw [hzero, sub_zero, abs_of_nonneg (mul_nonneg hq one_pos.le)] at hle
    linarith
  have hpower : 2 * (one : ℚ) < 10 ^ 400 := by
    obtain ⟨k, hk, hone⟩ := exists_one_eq
    have hlt : (2 : ℚ) ^ (k + 1) < 10 ^ 400 := two_pow_lt (by omega)
    rw [pow_succ'] at hlt
    rw [hone]
    exact_mod_cast hlt
  have hless : q * (2 * one) < 1 := (mul_le_mul_of_nonneg_left hpower.le hq).trans_lt hsmall
  linarith only [hunit, hhalf, hless]

theorem rankDecimal_eq_zero {d : Nat} {e : Int}
    (h : d = 0 ∨ ((Nat.toDigits 10 d).length : Int) + e < -400) : rankDecimal d e = 0 := by
  have hnearest := isNearest_rankDecimal d e
  by_cases hd : d = 0
  · rw [hd, Nat.cast_zero, zero_mul] at hnearest
    rw [hd]
    exact hnearest.rank_eq_zero
  · obtain ⟨hlow, hhigh⟩ := bounds_of_length hd e
    have hpoint := h.resolve_left hd
    have hten : (0 : ℚ) < 10 ^ 400 := pow_pos (by norm_num) 400
    have hpower : (10 : ℚ) ^ (((Nat.toDigits 10 d).length : Int) + e) ≤ 10 ^ (-(400 : Nat) : Int) :=
      zpow_le_zpow_right₀ (by norm_num) (by omega)
    rw [zpow_neg, zpow_natCast] at hpower
    have hsmall : (d * 10 ^ e : ℚ) * 10 ^ 400 < 1 := by
      rw [← inv_mul_cancel₀ hten.ne']
      exact mul_lt_mul_of_pos_right (hhigh.trans_le hpower) hten
    have hpos : (0 : ℚ) ≤ d * 10 ^ e := (zpow_pos (by norm_num) _).le.trans hlow
    exact hnearest.eq_zero hpos hsmall

theorem rankCount_le_rankDecimal {d : Nat} {e : Int} (hd : d ≠ 0)
    (h : 400 < ((Nat.toDigits 10 d).length : Int) + e) : rankCount ≤ rankDecimal d e := by
  have hpower : (10 : ℚ) ^ ((400 : Nat) : Int) ≤ 10 ^ ((Nat.toDigits 10 d).length + e - 1) :=
    zpow_le_zpow_right₀ (by norm_num) (by omega)
  rw [zpow_natCast] at hpower
  refine Nat.le_of_not_lt fun hrank => ?_
  exact absurd ((isNearest_rankDecimal d e).lt hrank)
    (not_lt.2 (hpower.trans (bounds_of_length hd e).1))

/-- The powers of ten that are not computed would give the same. -/
theorem ofDecimal_eq_ofRank (negative : Bool) (d : Nat) (e : Int) :
    ofDecimal negative d e = ofRank negative (rankDecimal d e) := by
  rw [ofDecimal]
  split
  · rename_i hsmall
    rw [rankDecimal_eq_zero hsmall]
    rfl
  · rename_i hsmall
    split
    · rename_i hlarge
      rw [ofRank, dif_neg (Nat.not_lt.2 (rankCount_le_rankDecimal (not_or.1 hsmall).1 hlarge))]
    · rfl

theorem ofDecimal_of_isNearest {d : Nat} {e : Int} {rank : Fin rankCount}
    (h : IsNearest (d * 10 ^ e) rank) (negative : Bool) :
    ofDecimal negative d e = .finite negative rank := by
  rw [ofDecimal_eq_ofRank, (isNearest_rankDecimal d e).unique h, ofRank, dif_pos rank.isLt]

end Double

namespace Numeral

open Text Double

theorem isEdge_of_isMark {c : Char} (h : c.isDigit ∨ c ∈ ['.', 'e', '-', '+']) :
    isEdge c = false ∧ c ≠ '_' := by
  obtain h | h := h
  · refine ⟨isEdge_of_isDecimal (isDecimal_of_isDigit h), ?_⟩
    rintro rfl
    cases h
  · have hmarks : ['.', 'e', '-', '+'].all fun c => !isEdge c && c != '_' := by decide
    simpa using List.all_eq_true.1 hmarks c h

theorem eq_of_mem_sign {negative : Bool} {c : Char} (h : c ∈ sign negative) : c = '-' := by
  cases negative with
  | false => cases h
  | true => exact List.mem_singleton.1 h

theorem readExponent_digits (negative : Bool) {es : List Char} (hne : es ≠ [])
    (hes : ∀ c ∈ es, c.isDigit) :
    readExponent ('e' :: (if negative then '-' else '+') :: es) =
      some (exponentValue negative es) := by
  have hall : es.all isDecimal := List.all_eq_true.2 fun c hc => isDecimal_of_isDigit (hes c hc)
  have hvalue := digitsValue_eq_ofDigitChars hes
  cases negative <;> simp [readExponent, takeSign, hne, hall, hvalue, exponentValue]

theorem isDigits_of_isDigit {ds : List Char} (hne : ds ≠ []) (hds : ∀ c ∈ ds, c.isDigit) :
    IsDigits ds where
  ne_nil := hne
  decimal c hc := isDecimal_of_isDigit (hds c hc)

theorem readDecimal_of_spelled {m : List Char} {q : ℚ} (h : Spelled m q) (negative : Bool) :
    ∃ (d : Nat) (e : Int), d * 10 ^ e = q ∧
      readDecimal negative m = some (.ofDecimal negative d e) := by
  have hpoint : isDecimal '.' = false := by decide
  have hmark : isDecimal 'e' = false := by decide
  cases h with
  | @fraction ds fs hne hds hfs =>
    refine ⟨_, _, rfl, ?_⟩
    obtain ⟨hwhole, hrest⟩ :=
      takeWhile_isDecimal_append (isDigits_of_isDigit hne hds) ('.' :: fs) (by simp [hpoint])
    have hdecimal : ∀ c ∈ fs, isDecimal c := fun c hc => isDecimal_of_isDigit (hfs c hc)
    simp [readDecimal, hwhole, hrest, List.takeWhile_eq_self_iff.2 hdecimal,
      List.dropWhile_eq_nil_iff.2 hdecimal, hne, readExponent,
      digitsValue_eq_ofDigitChars (List.forall_mem_append.2 ⟨hds, hfs⟩)]
  | @exponent ds es sign hne hds hes hexp =>
    refine ⟨_, _, rfl, ?_⟩
    obtain ⟨hwhole, hrest⟩ := takeWhile_isDecimal_append (isDigits_of_isDigit hne hds)
      ('e' :: (if sign then '-' else '+') :: es) (by simp [hmark])
    simp [readDecimal, hwhole, hrest, hne, readExponent_digits sign hes hexp,
      digitsValue_eq_ofDigitChars hds]
  | @both ds fs es sign hne hds hfs hes hexp =>
    refine ⟨_, _, rfl, ?_⟩
    obtain ⟨hwhole, hrest⟩ := takeWhile_isDecimal_append (isDigits_of_isDigit hne hds)
      ('.' :: (fs ++ 'e' :: (if sign then '-' else '+') :: es)) (by simp [hpoint])
    have hdecimal : ∀ c ∈ fs, isDecimal c := fun c hc => isDecimal_of_isDigit (hfs c hc)
    simp [readDecimal, hwhole, hrest, List.takeWhile_append_of_pos hdecimal,
      List.dropWhile_append_of_pos hdecimal, hmark, hne, readExponent_digits sign hes hexp,
      digitsValue_eq_ofDigitChars (List.forall_mem_append.2 ⟨hds, hfs⟩)]

theorem toList_text (negative : Bool) (rank : Fin rankCount) :
    (Double.finite negative rank).text.toList = sign negative ++ magnitudeChars rank := by
  rw [Double.text, String.toList_ofList]
  rfl

theorem readReal_text (negative : Bool) (rank : Fin rankCount) :
    readReal (Double.finite negative rank).text = .ok (.finite negative rank) := by
  obtain ⟨q, hnearest, hspelled⟩ := spelled_magnitudeChars rank
  obtain ⟨d, e, rfl, hread⟩ := readDecimal_of_spelled hspelled negative
  have hmarks : ∀ c ∈ sign negative ++ magnitudeChars rank, isEdge c = false ∧ c ≠ '_' := by
    refine List.forall_mem_append.2 ⟨?_, fun c hc => isEdge_of_isMark (hspelled.isMark hc)⟩
    intro c hc
    rw [eq_of_mem_sign hc]
    decide
  have hedge (s : List Char) (hs : ∀ c ∈ s, isEdge c = false) : s.dropWhile isEdge = s :=
    List.dropWhile_eq_self_iff.2 fun _ => by simp [hs]
  obtain ⟨ds, rest, hm, hne, hds⟩ := hspelled.exists_digits
  have hds := isDigits_of_isDigit hne hds
  rw [readReal, toList_text, joinDigits_of_notMem fun hc => (hmarks _ hc).2 rfl, Option.map_some,
    hedge _ fun c hc => (hmarks c hc).1,
    hedge _ fun c hc => (hmarks c (List.mem_reverse.1 hc)).1, List.reverse_reverse, hm,
    Option.bind_some, takeSign_sign hds, readUnsigned_of_isDigits hds, ← hm, hread]
  exact congrArg _ (ofDecimal_of_isNearest hnearest negative)

end Numeral

end StructLang
