import StructLang.Proofs.Code.Folding
import StructLang.Proofs.Code.Summing
import StructLang.Proofs.Number.Rounding

/-!
Folding and rounding. A sum of integers is folded to the exact sum; a script adds doubles, and so
rounds every literal and every sum. The two agree if every part of the sum is a double, and may
differ otherwise.
-/

namespace StructLang.Code

inductive IntegerSum where
  | literal (n : Int) (place : Option Span)
  | add (left right : IntegerSum) (place : Option Span)

namespace IntegerSum

def code : IntegerSum → Code
  | literal n place => .literal (.int n) .number place
  | add left right place => .binary .add left.code right.code place

def value : IntegerSum → Int
  | literal n _ => n
  | add left right _ => left.value + right.value

def double : IntegerSum → Double
  | literal n _ => .ofInt n
  | add left right _ => left.double.add right.double

/-- The sum with each literal and each sum rounded, where no number is too large for a double. -/
def rounded : IntegerSum → Int
  | literal n _ => Double.roundInt n
  | add left right _ => Double.roundInt (left.rounded + right.rounded)

def parts : IntegerSum → List IntegerSum
  | literal _ _ => []
  | add left right _ => left :: right :: (left.parts ++ right.parts)

theorem isExpr_code (s : IntegerSum) : s.code.IsExpr := by
  induction s with
  | literal n place => exact .number rfl
  | add left right place ihl ihr => exact .binary ihl ihr

theorem constant?_code (s : IntegerSum) : s.code.constant? = some (.int s.value) := by
  induction s with
  | literal n place => rfl
  | add left right place ihl ihr =>
    rw [code, constant?, ihl, ihr]
    rfl

theorem isSummable_code_iff {s : IntegerSum} :
    s.code.IsSummable ↔ ∀ p ∈ s.parts, Numeral.isShort p.value := by
  induction s with
  | literal n place => simp [IsSummable, code, sums, parts]
  | add left right place ihl ihr =>
    have hterms : terms? .add left.code.constant? right.code.constant? =
        some (.int left.value, .int right.value) := by
      rw [constant?_code, constant?_code]
      rfl
    have hfit : IsFit (.int left.value, .int right.value) ↔
        Numeral.isShort left.value ∧ Numeral.isShort right.value := by
      simp [IsFit, Value.isWritable, Value.sumsWith]
    rw [IsSummable] at ihl ihr
    simp only [IsSummable, code, sums, hterms, parts, List.forall_mem_append, Option.toList_some,
      List.forall_mem_singleton, List.forall_mem_cons, ihl, ihr, hfit]
    exact and_comm.trans and_assoc

theorem eq_of_folds_code {s : IntegerSum} {c : Code} (h : Folds s.code c) :
    c = .literal (.int s.value) .number s.code.loc := by
  induction s generalizing c with
  | literal n place =>
    cases h
    rfl
  | add left right place ihl ihr =>
    cases h with
    | sum hl hr _ hv =>
      cases ihl hl
      cases ihr hr
      cases hv
      rfl
    | binary hl hr hnot =>
      cases ihl hl
      cases ihr hr
      exact absurd .number hnot

theorem fold_code_eq_ok_iff {s : IntegerSum} (t : Tally) :
    (s.code.fold t).1 = .ok (.literal (.int s.value) .number s.code.loc) ↔
      ∀ p ∈ s.parts, Numeral.isShort p.value := by
  rw [← isSummable_code_iff, ← (s.isExpr_code.foldM_settles t).isOk_iff]
  constructor
  · exact fun h => ⟨_, h⟩
  · rintro ⟨c, hc⟩
    rw [← eq_of_folds_code (folds_of_fold hc)]
    exact hc

theorem rounded_eq {s : IntegerSum} (h : ∀ p ∈ s.parts, Double.IsExact p.value) :
    s.rounded = Double.roundInt s.value := by
  induction s with
  | literal n place => rfl
  | add left right place ihl ihr =>
    simp only [parts, List.forall_mem_cons, List.forall_mem_append] at h
    obtain ⟨hl, hr, hpartsl, hpartsr⟩ := h
    rw [rounded, ihl hpartsl, ihr hpartsr, Double.roundInt_eq_self_iff.2 hl,
      Double.roundInt_eq_self_iff.2 hr, value]

theorem roundInt_rounded (s : IntegerSum) : Double.roundInt s.rounded = s.rounded := by
  rw [Double.roundInt_eq_self_iff]
  cases s with
  | literal n place => exact Double.isExact_roundInt n
  | add left right place => exact Double.isExact_roundInt _

theorem double_eq {s : IntegerSum} (h : ∀ p ∈ s.parts, p.rounded.natAbs < Double.overflow) :
    s.double = .ofInt s.rounded := by
  induction s with
  | literal n place => exact (Double.ofInt_roundInt n).symm
  | add left right place ihl ihr =>
    simp only [parts, List.forall_mem_cons, List.forall_mem_append] at h
    obtain ⟨hl, hr, hpartsl, hpartsr⟩ := h
    rw [double, ihl hpartsl, ihr hpartsr, Double.ofInt_add hl hr, roundInt_rounded,
      roundInt_rounded, rounded, Double.ofInt_roundInt]

theorem parts_trans {s p q : IntegerSum} (hp : p ∈ s.parts) (hq : q ∈ p.parts) : q ∈ s.parts := by
  induction s with
  | literal n place => cases hp
  | add left right place ihl ihr =>
    simp only [parts, List.mem_cons, List.mem_append] at hp ⊢
    obtain rfl | rfl | hp | hp := hp
    · exact .inr (.inr (.inl hq))
    · exact .inr (.inr (.inr hq))
    · exact .inr (.inr (.inl (ihl hp)))
    · exact .inr (.inr (.inr (ihr hp)))

theorem rounded_of_mem_parts {s p : IntegerSum} (h : ∀ p ∈ s.parts, Double.IsExact p.value)
    (hp : p ∈ s.parts) : p.rounded = p.value := by
  rw [rounded_eq fun q hq => h q (parts_trans hp hq), Double.roundInt_eq_self_iff]
  exact h p hp

/-- A sum of integers is folded to the exact sum. If no part of it has more bits than a double, the
sum with rounded parts is the exact sum, rounded; if none is too large for a double either, that is
what doubles compute. -/
theorem fold_integerSum (s : IntegerSum) (t : Tally) :
    ((s.code.fold t).1 = .ok (.literal (.int s.value) .number s.code.loc) ↔
        ∀ p ∈ s.parts, Numeral.isShort p.value) ∧
      (s.value.natAbs < Double.overflow →
        ∃ d, Double.ofInt? s.value = some d ∧ d.toInt? = some (Double.roundInt s.value)) ∧
      ((∀ p ∈ s.parts, p.rounded.natAbs < Double.overflow) → s.double = .ofInt s.rounded) ∧
      ((∀ p ∈ s.parts, Double.IsExact p.value) → Double.roundInt s.value = s.rounded ∧
        ((∀ p ∈ s.parts, p.value.natAbs < Double.overflow) → s.double = .ofInt s.value)) := by
  refine ⟨fold_code_eq_ok_iff t, fun hsmall => ?_, double_eq, fun hexact => ?_⟩
  · obtain ⟨d, hd⟩ := Double.exists_ofInt?_iff.2 hsmall
    exact ⟨d, hd, Double.toInt?_ofInt? hd⟩
  · have hrounded := rounded_eq hexact
    refine ⟨hrounded.symm, fun hsmall => ?_⟩
    have hdouble := double_eq fun p hp => by
      rw [rounded_of_mem_parts hexact hp]
      exact hsmall p hp
    rw [hdouble, hrounded, Double.ofInt_roundInt]

def long : IntegerSum := .add (.add (.literal (2 ^ 60) none) (.literal (2 ^ 60) none) none)
  (.literal 1 none) none

theorem fold_integerSum_long :
    (∀ p ∈ long.parts, Numeral.isShort p.value) ∧ long.value.natAbs < Double.overflow ∧
      (∀ p ∈ long.parts, Double.IsExact p.value) ∧
      (long.code.fold {}).1 = .ok (.literal (.int (2 ^ 61 + 1)) .number none) ∧
      (∃ d, Double.ofInt? long.value = some d ∧ d.toInt? = some (2 ^ 61)) ∧
      long.rounded = 2 ^ 61 ∧ long.double = .ofInt (2 ^ 61 + 1) := by
  have hshort : ∀ p ∈ long.parts, Numeral.isShort p.value := by decide +kernel
  have hsmall : long.value.natAbs < Double.overflow := by decide +kernel
  have hparts : ∀ p ∈ long.parts, Double.IsExact p.value := by
    simp only [← Double.roundInt_eq_self_iff]
    decide +kernel
  have hrounded : Double.roundInt long.value = 2 ^ 61 := by decide +kernel
  have hlimits : ∀ p ∈ long.parts, p.value.natAbs < Double.overflow := by decide +kernel
  obtain ⟨hfold, hnearest, -, hdoubles⟩ := fold_integerSum long {}
  obtain ⟨heq, hdouble⟩ := hdoubles hparts
  rw [hrounded] at hnearest heq
  exact ⟨hshort, hsmall, hparts, hfold.2 hshort, hnearest hsmall, heq.symm, hdouble hlimits⟩

/-- Each one is lost when it is added by itself. -/
def lossy : IntegerSum := .add (.add (.literal (2 ^ 53) none) (.literal 1 none) none)
  (.literal 1 none) none

theorem fold_lossy :
    (lossy.code.fold {}).1 = .ok (.literal (.int (2 ^ 53 + 2)) .number none) ∧
      Double.roundInt (2 ^ 53 + 2) = 2 ^ 53 + 2 ∧ lossy.rounded = 2 ^ 53 := by
  have hshort : ∀ p ∈ lossy.parts, Numeral.isShort p.value := by decide +kernel
  exact ⟨(fold_code_eq_ok_iff {}).2 hshort, by decide +kernel, by decide +kernel⟩

end IntegerSum

end StructLang.Code
