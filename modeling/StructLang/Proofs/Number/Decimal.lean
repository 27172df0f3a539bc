import StructLang.Proofs.Number.Numeral

namespace StructLang

open Text

def decimalDigits (n : Int) : List Char := Nat.toDigits 10 n.natAbs

theorem isDigit_of_mem_decimalDigits {n : Int} {c : Char} (h : c ∈ decimalDigits n) : c.isDigit :=
  Nat.isDigit_of_mem_toDigits (by decide) (by decide) h

theorem decimalDigits_ne_nil (n : Int) : decimalDigits n ≠ [] := Nat.toDigits_ne_nil

theorem length_decimalDigits_le {n : Int} {k : Nat} (hk : 0 < k) (h : n.natAbs < Nat.pow 10 k) :
    (decimalDigits n).length ≤ k :=
  (Nat.length_toDigits_le_iff (by decide) hk).2 h

theorem length_decimalDigits_pow (k : Nat) : (decimalDigits (Nat.pow 10 k)).length = k + 1 := by
  rw [decimalDigits, Int.natAbs_natCast]
  apply Nat.le_antisymm
  · exact (Nat.length_toDigits_le_iff (by decide) k.succ_pos).2 (Nat.pow_lt_pow_succ (by decide))
  · cases k with
    | zero => decide
    | succ k =>
      refine Nat.lt_of_not_le fun h => ?_
      exact absurd ((Nat.length_toDigits_le_iff (by decide) k.succ_pos).1 h) (Nat.lt_irrefl _)

theorem toList_toString_int (n : Int) :
    (toString n).toList = (if n < 0 then ['-'] else []) ++ decimalDigits n := by
  rw [Int.toString_eq_repr, Int.repr_eq_if, decimalDigits]
  by_cases h : 0 ≤ n
  · have habs : n.toNat = n.natAbs := by omega
    rw [if_pos h, if_neg (Int.not_lt.2 h), Nat.toList_repr, List.nil_append, habs]
  · have habs : (-n).toNat = n.natAbs := by omega
    rw [if_neg h, if_pos (Int.not_le.1 h), String.toList_append, Nat.toList_repr, habs]
    rfl

namespace Numeral

theorem isDigits_decimalDigits (n : Int) : IsDigits (decimalDigits n) where
  ne_nil := decimalDigits_ne_nil n
  decimal _ hc := isDecimal_of_isDigit (isDigit_of_mem_decimalDigits hc)

theorem toList_toString_eq_sign (n : Int) :
    (toString n).toList = sign (decide (n < 0)) ++ decimalDigits n := by
  rw [toList_toString_int]
  simp [sign]

theorem readInt_toString {n : Int} (h : n.natAbs < Nat.pow 10 digitLimit) :
    readInt (toString n) = .ok n := by
  have hlength : (decimalDigits n).length ≤ digitLimit := length_decimalDigits_le (by decide) h
  have hvalue : digitsValue (decimalDigits n) = n.natAbs := by
    rw [digitsValue_eq_ofDigitChars fun c hc => isDigit_of_mem_decimalDigits hc]
    exact Nat.ofDigitChars_ten_toDigits
  rw [readInt_of_isDigits (isDigits_decimalDigits n) (toList_toString_eq_sign n),
    if_neg (Nat.not_lt.2 hlength), hvalue]
  congr 1
  by_cases hn : n < 0
  · rw [if_pos (decide_eq_true hn), Int.ofNat_natAbs_of_nonpos (Int.le_of_lt hn), Int.neg_neg]
  · rw [if_neg (by simpa using hn), Int.natAbs_of_nonneg (Int.not_lt.1 hn)]

end Numeral

theorem contains_point_toString (n : Int) : (toString n).toList.contains '.' = false := by
  have hdigits : '.' ∉ decimalDigits n := by
    intro hc
    exact absurd (isDigit_of_mem_decimalDigits hc) (by decide)
  rw [toList_toString_int]
  by_cases hn : n < 0 <;> simp [hn, hdigits]

theorem Value.ofNumeral_toString {n : Int} (h : n.natAbs < Nat.pow 10 Numeral.digitLimit) :
    ofNumeral (toString n) = .ok (.int n) := by
  rw [ofNumeral, contains_point_toString, Numeral.readInt_toString h]
  rfl

theorem Value.ofNumeral_toString_of_long {n : Int}
    (h : Numeral.digitLimit < (decimalDigits n).length) :
    ofNumeral (toString n) = .error (.numeral (.tooManyDigits (decimalDigits n).length)) := by
  rw [ofNumeral, contains_point_toString, Numeral.readInt_of_isDigits
    (Numeral.isDigits_decimalDigits n) (Numeral.toList_toString_eq_sign n), if_pos h]
  rfl

end StructLang
