import StructLang.Proofs.Number.Decimal
import StructLang.Proofs.Number.Nearest
import StructLang.Proofs.Script.Spelling
import StructLang.Proofs.Value

namespace StructLang

namespace Value

def isFinite : Value → Bool
  | .real (.infinite _) | .real .nan => false
  | _ => true

def isNegative : Value → Bool
  | .int n => n < 0
  | .real (.finite negative rank) => negative && rank.val != 0
  | _ => false

def isWhole : Value → Bool
  | .int _ => true
  | .real d => d.toInt?.isSome
  | _ => false

/-- The number is the value without its sign, or one that it is the nearest double to. -/
def HasMagnitude : Value → ℚ → Prop
  | .int n, q => q = n.natAbs
  | .real (.finite _ rank), q => Double.IsNearest q rank
  | _, _ => False

end Value

namespace Script

/-- The characters of a number after its sign. Digits alone are read as they stand only where no
point follows. -/
inductive Magnitude : Bool → List Char → ℚ → Prop
  | whole : ds ≠ [] → (∀ c ∈ ds, c.isDigit) → Magnitude true ds (Nat.ofDigitChars 10 ds 0)
  | fractional : (∀ r, IsBreak r → word? (m ++ r) = some (.number q, r)) → Magnitude false m q

theorem magnitude_decimalDigits (n : Int) : Magnitude true (decimalDigits n) n.natAbs := by
  have hwhole := Magnitude.whole (decimalDigits_ne_nil n) fun c => isDigit_of_mem_decimalDigits
  rwa [decimalDigits, Nat.ofDigitChars_ten_toDigits] at hwhole

theorem magnitude_magnitudeChars (rank : Nat) :
    ∃ q, Double.IsNearest q rank ∧ Magnitude false (Double.magnitudeChars rank) q := by
  obtain ⟨q, hnearest, hspelled⟩ := Double.spelled_magnitudeChars rank
  exact ⟨q, hnearest, .fractional fun r hr => word?_spelled hspelled hr⟩

def WritesNumber (v : Value) : Prop :=
  ∃ text m q, v.script = .ok text ∧ text.toList = Numeral.sign v.isNegative ++ m ∧
    v.HasMagnitude q ∧ Magnitude v.isWhole m q

theorem script_int {n : Int} (h : (Value.int n).isWritable) :
    (Value.int n).script = .ok (toString n) := by
  rw [Value.isWritable] at h
  have hscript : (Value.int n).script = decimalText n := rfl
  rw [hscript, decimalText_of_isShort h]

theorem writesNumber_int {n : Int} (h : (Value.int n).isWritable) : WritesNumber (.int n) :=
  ⟨toString n, decimalDigits n, n.natAbs, script_int h, Numeral.toList_toString_eq_sign n, rfl,
    magnitude_decimalDigits n⟩

theorem writesNumber_of_toInt? {negative : Bool} {rank : Fin Double.rankCount} {n : Int}
    (h : (Double.finite negative rank).toInt? = some n) :
    WritesNumber (.real (.finite negative rank)) := by
  obtain ⟨hunits, hsign⟩ := Double.natAbs_of_toInt? h
  have hnegative : decide (n < 0) = (negative && rank.val != 0) := by
    rw [Bool.eq_iff_iff]
    simpa using hsign
  have hnearest : Double.IsNearest n.natAbs rank :=
    Double.isNearest_of_eq (by rw [← Nat.cast_mul, hunits])
  have hwhole : (Value.real (.finite negative rank)).isWhole = true := by
    rw [Value.isWhole, h]
    rfl
  refine ⟨toString n, decimalDigits n, n.natAbs, ?_, ?_, hnearest, ?_⟩
  · rw [Value.script, h]
    exact decimalText_of_isShort (Numeral.isShort_of_toInt? h)
  · rw [Numeral.toList_toString_eq_sign, hnegative]
    rfl
  · rw [hwhole]
    exact magnitude_decimalDigits n

theorem writesNumber_of_toInt?_eq_none {negative : Bool} {rank : Fin Double.rankCount}
    (h : (Double.finite negative rank).toInt? = none) :
    WritesNumber (.real (.finite negative rank)) := by
  have hrank : rank.val ≠ 0 := by
    intro hzero
    have hunits : Double.units rank = 0 := by rw [hzero]; rfl
    rw [Double.toInt?, hunits, Nat.zero_mod, if_pos rfl] at h
    cases h
  have hnegative : (negative && rank.val != 0) = negative := by simp [hrank]
  have hwhole : (Value.real (.finite negative rank)).isWhole = false := by
    rw [Value.isWhole, h]
    rfl
  obtain ⟨q, hnearest, hmagnitude⟩ := magnitude_magnitudeChars rank
  refine ⟨(Double.finite negative rank).text, Double.magnitudeChars rank, q, ?_, ?_, hnearest, ?_⟩
  · rw [Value.script, h]
  · rw [Double.text, String.toList_ofList, Double.chars, Value.isNegative, hnegative]
    rfl
  · rw [hwhole]
    exact hmagnitude

theorem writesNumber {v : Value} (hnumber : v.isNumber) (hfinite : v.isFinite)
    (hwritable : v.isWritable) : WritesNumber v := by
  cases v with
  | int n => exact writesNumber_int hwritable
  | real d =>
    cases d with
    | finite negative rank =>
      cases hd : (Double.finite negative rank).toInt? with
      | some n => exact writesNumber_of_toInt? hd
      | none => exact writesNumber_of_toInt?_eq_none hd
    | infinite => cases hfinite
    | nan => cases hfinite
  | _ => cases hnumber

theorem isDigit_of_word? {c : Char} {s r : List Char} {q : ℚ}
    (h : word? (c :: s) = some (.number q, r)) : c.isDigit := by
  have hmarks : ∀ m ∈ marks, m.2 ≠ some (.number q) := by simp [marks]
  rw [word?] at h
  split at h
  · assumption
  · split at h
    · cases h
    · split at h
      · obtain ⟨p, _, hp⟩ := Option.map_eq_some_iff.1 h
        cases hp
      · split at h
        · cases h
        · obtain ⟨m, hm, h⟩ := Option.bind_eq_some_iff.1 h
          obtain ⟨w, hw, h⟩ := Option.bind_eq_some_iff.1 h
          cases h
          exact absurd hw (hmarks m (List.mem_of_find?_eq_some hm))

theorem Magnitude.word? {whole : Bool} {m : List Char} {q : ℚ} (h : Magnitude whole m q) :
    ∀ r, IsEnd r → word? (m ++ r) = some (.number q, r) := by
  cases h with
  | whole hne hds => exact fun r hr => word?_whole hne hds hr
  | fractional hword => exact fun r hr => hword r hr.isBreak

theorem Magnitude.exists_cons {whole : Bool} {m : List Char} {q : ℚ} (h : Magnitude whole m q) :
    ∃ c x, m = c :: x ∧ c.isDigit := by
  have hword := h.word? [] rfl
  cases m with
  | nil => cases hword
  | cons c x => exact ⟨c, x, rfl, isDigit_of_word? hword⟩

theorem isWhitespace_of_isDigit {c : Char} (h : c.isDigit) : ¬c.isWhitespace := by
  intro hspace
  simp only [Char.isWhitespace, Bool.or_eq_true, decide_eq_true_eq] at hspace
  obtain ((rfl | rfl) | rfl) | rfl := hspace <;> cases h

end Script

end StructLang
