import StructLang.Proofs.Code.Meaning
import StructLang.Proofs.Number.Numeral
import StructLang.Proofs.Number.Range

namespace StructLang

namespace Numeral

def isShort (n : Int) : Bool := n.natAbs < Nat.pow 10 digitLimit

theorem two_pow_le_ten_pow {m n : Nat} (h : m ≤ n) : 2 ^ m ≤ Nat.pow 10 n :=
  (Nat.pow_le_pow_right Nat.two_pos h).trans (Nat.pow_le_pow_left (by decide) n)

-- The power is generalized before any two terms with it are compared, lest it be computed.
theorem isShort_of_toInt? {d : Double} {n : Int} (h : d.toInt? = some n) : isShort n := by
  have hlt := (Double.natAbs_lt_of_toInt? h).trans_le
    (two_pow_le_ten_pow (n := digitLimit) (by decide))
  rw [isShort]
  generalize Nat.pow 10 digitLimit = limit at hlt
  exact decide_eq_true hlt

end Numeral

theorem decimalText_settles (n : Int) :
    Settles (decimalText n) (Numeral.isShort n) (fun _ => True) (· = .unwritable) := by
  rw [decimalText, Numeral.isShort]
  generalize Nat.pow 10 Numeral.digitLimit = limit
  exact .ite _ _ _

theorem decimalText_of_isShort {n : Int} (h : Numeral.isShort n) :
    decimalText n = .ok (toString n) := by
  rw [Numeral.isShort, decide_eq_true_eq] at h
  rw [decimalText, if_pos h]

namespace Value

def isWritable : Value → Bool
  | .int n => Numeral.isShort n
  | _ => true

def sumsWith : Value → Value → Bool
  | .int n, .real _ | .real _, .int n => n.natAbs < Double.overflow
  | _, _ => true

theorem isWritable_of_ofNumeral {text : String} {v : Value} (h : ofNumeral text = .ok v) :
    v.isWritable := by
  rw [ofNumeral] at h
  split at h
  · split at h
    · cases h
      rfl
    · cases h
  · split at h
    · rename_i n hn
      cases h
      have hlt := Numeral.natAbs_lt_of_readInt hn
      rw [isWritable, Numeral.isShort]
      generalize Nat.pow 10 Numeral.digitLimit = limit at hlt ⊢
      exact decide_eq_true hlt
    · cases h

theorem listing_settles (v : Value) :
    Settles v.listing v.isWritable (fun _ => True) (· = .unwritable) := by
  cases v with
  | int n =>
    rw [listing, isWritable]
    exact decimalText_settles n
  | _ => exact .ok rfl trivial

theorem script_settles (v : Value) :
    Settles v.script v.isWritable (fun _ => True) (· = .unwritable) := by
  cases v with
  | int n => exact listing_settles (.int n)
  | real d =>
    rw [script]
    split
    · rename_i n hn
      exact (decimalText_settles n).congr (iff_of_true (Numeral.isShort_of_toInt? hn) rfl)
    · exact .ok rfl trivial
  | _ => exact .ok rfl trivial

-- The equation of the function and not of its values: to compare those would compute the double.
theorem toDouble_eq : toDouble = fun n => match Double.ofInt? n with
    | some d => .ok d
    | none => .error .tooLarge := by
  delta toDouble
  rfl

theorem toDouble_settles (n : Int) :
    Settles (toDouble n) (n.natAbs < Double.overflow) (fun _ => True) (· = .tooLarge) := by
  have hiff := Double.exists_ofInt?_iff (n := n)
  rw [toDouble_eq]
  beta_reduce
  generalize Double.overflow = bound at hiff ⊢
  cases hd : Double.ofInt? n with
  | some d => exact .ok (hiff.1 ⟨d, hd⟩) trivial
  | none =>
    refine .error (fun hlt => ?_) rfl
    obtain ⟨d, hsome⟩ := hiff.2 hlt
    simp [hd] at hsome

theorem real_settles (n : Int) (f : Double → Double) :
    Settles (do return Value.real (f (← toDouble n))) (decide (n.natAbs < Double.overflow))
      (fun _ => True) (· = .tooLarge) := by
  refine ((toDouble_settles n).bind fun d _ => .ok trivial trivial).congr ?_
  generalize Double.overflow = bound
  simp

theorem add_settles {a b : Value} (h : a.areAddable b) :
    Settles (a.add b) (a.sumsWith b) (fun _ => True) (· = .tooLarge) := by
  cases a with
  | int m =>
    cases b with
    | int n => exact .ok rfl trivial
    | real d => exact real_settles m fun c => c.add d
    | _ => cases h
  | real c =>
    cases b with
    | int n => exact real_settles n fun d => c.add d
    | real d => exact .ok rfl trivial
    | _ => cases h
  | text s =>
    cases b with
    | text t => exact .ok rfl trivial
    | _ => cases h
  | _ => cases h

end Value

end StructLang
