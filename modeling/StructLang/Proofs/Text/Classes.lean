import StructLang.Text.Blank
import StructLang.Text.Digit
import StructLang.Text.Word

namespace StructLang.Text

theorem forall_ascii {p : Char → Bool} (h : ∀ n < 128, p (Char.ofNat n)) {c : Char}
    (hc : c.toNat < 128) : p c := by
  simpa using h c.toNat hc

theorem toNat_lt_of_isAlphanum {c : Char} (h : c.isAlphanum) : c.toNat < 128 := by
  have hval : c.toNat = c.val.toNat := rfl
  delta Char.isAlphanum Char.isAlpha Char.isUpper Char.isLower Char.isDigit at h
  simp only [ge_iff_le, Bool.or_eq_true, Bool.and_eq_true, decide_eq_true_eq,
    UInt32.le_iff_toNat_le, Char.reduceVal, UInt32.reduceToNat] at h
  omega

theorem isDecimal_eq_isDigit {c : Char} (h : c.toNat < 128) : isDecimal c = c.isDigit := by
  have hc := forall_ascii (p := fun c => isDecimal c == c.isDigit) (by decide +kernel) h
  simpa using hc

theorem toNat_lt_of_isDigit {c : Char} (h : c.isDigit) : c.toNat < 128 :=
  toNat_lt_of_isAlphanum (by simp [Char.isAlphanum, h])

theorem isDecimal_of_isDigit {c : Char} (h : c.isDigit) : isDecimal c := by
  rw [isDecimal_eq_isDigit (toNat_lt_of_isDigit h), h]

theorem isBlank_of_isAlphanum {c : Char} (h : c.isAlphanum) : isBlank c = false := by
  have hc := forall_ascii (p := fun c => !(c.isAlphanum && isBlank c)) (by decide +kernel)
    (toNat_lt_of_isAlphanum h)
  simpa [h] using hc

theorem exists_zero_of_isDecimal {c : Char} (h : isDecimal c) :
    ∃ z ∈ digitZeros, z ≤ c.toNat ∧ c.toNat < z + 10 := by
  rw [isDecimal, digitValue?, Option.isSome_map, List.find?_isSome] at h
  simpa using h

theorem isBlank_of_isDecimal {c : Char} (h : isDecimal c) : isBlank c = false := by
  obtain ⟨z, hz, hle, hlt⟩ := exists_zero_of_isDecimal h
  have hapart : ∀ z ∈ digitZeros, ∀ p ∈ blankRanges, p.2 < z ∨ z + 10 ≤ p.1 := by decide
  rw [isBlank, Ranges.has, List.any_eq_false]
  intro p hp
  have hzp := hapart z hz p hp
  simp only [Bool.and_eq_true, decide_eq_true_eq, not_and]
  omega

theorem toLower_of_isDecimal {c : Char} (h : isDecimal c) : c.toLower = c := by
  obtain ⟨z, hz, hle, hlt⟩ := exists_zero_of_isDecimal h
  have hapart : ∀ z ∈ digitZeros, z + 10 ≤ 'A'.toNat ∨ 'Z'.toNat < z := by decide
  have hzc := hapart z hz
  delta Char.toLower
  rw [dif_neg]
  simp only [ge_iff_le, UInt32.le_iff_toNat_le, not_and]
  change 'A'.toNat ≤ c.toNat → ¬c.toNat ≤ 'Z'.toNat
  omega

theorem digitValue?_of_isDigit {c : Char} (h : c.isDigit) :
    digitValue? c = some (c.toNat - '0'.toNat) := by
  have hc := forall_ascii
    (p := fun c => !c.isDigit || digitValue? c == some (c.toNat - '0'.toNat)) (by decide +kernel)
    (toNat_lt_of_isDigit h)
  simpa [h] using hc

theorem digitsValue_eq_ofDigitChars {s : List Char} (h : ∀ c ∈ s, c.isDigit) :
    digitsValue s = Nat.ofDigitChars 10 s 0 := by
  rw [digitsValue, Nat.ofDigitChars_eq_foldl]
  suffices ∀ n, s.foldl (fun n c => 10 * n + (digitValue? c).getD 0) n =
      s.foldl (fun n c => 10 * n + (c.toNat - '0'.toNat)) n from this 0
  induction s with
  | nil =>
    intro n
    rfl
  | cons c s ih =>
    intro n
    rw [List.foldl_cons, List.foldl_cons, digitValue?_of_isDigit (h c (by simp))]
    exact ih (fun d hd => h d (by simp [hd])) _

theorem digitValue?_lt {c : Char} {d : Nat} (h : digitValue? c = some d) : d < 10 := by
  obtain ⟨z, hz, rfl⟩ := Option.map_eq_some_iff.1 h
  have hrange := List.find?_some hz
  simp only [Bool.and_eq_true, decide_eq_true_eq] at hrange
  omega

theorem digitsValue_lt (s : List Char) : digitsValue s < Nat.pow 10 s.length := by
  suffices ∀ n, s.foldl (fun n c => 10 * n + (digitValue? c).getD 0) n <
      (n + 1) * Nat.pow 10 s.length by
    simpa [digitsValue] using this 0
  induction s with
  | nil => simp
  | cons c s ih =>
    intro n
    have hdigit : (digitValue? c).getD 0 < 10 := by
      cases hc : digitValue? c with
      | none => decide
      | some d => exact digitValue?_lt hc
    calc (c :: s).foldl (fun n c => 10 * n + (digitValue? c).getD 0) n
        < (10 * n + (digitValue? c).getD 0 + 1) * Nat.pow 10 s.length := ih _
      _ ≤ (n + 1) * 10 * Nat.pow 10 s.length := Nat.mul_le_mul_right _ (by omega)
      _ = (n + 1) * Nat.pow 10 (c :: s).length := by
        simp only [List.length_cons, Nat.pow_eq, Nat.pow_succ', Nat.mul_assoc]

/-- What may stand between two quotes: every quote has a backslash of its own before it, and so has
every backslash that is not one. -/
inductive IsQuotable : List Char → Prop
  | nil : IsQuotable []
  | plain : c ≠ '"' → c ≠ '\\' → IsQuotable s → IsQuotable (c :: s)
  | escaped : IsQuotable s → IsQuotable ('\\' :: c :: s)

end StructLang.Text
