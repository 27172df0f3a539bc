import StructLang.Proofs.Number.Numeral
import StructLang.Proofs.Tree.Shape
import StructLang.Proofs.Tree.Walk
import StructLang.Proofs.Value

namespace StructLang

namespace Code

inductive IsExpr : Code → Prop
  | number : v.isNumber → IsExpr (.literal v .number place)
  | text : IsExpr (.literal (.text s) .string place)
  | name : IsExpr (.name n place)
  | binary : IsExpr l → IsExpr r → IsExpr (.binary op l r place)
  | call : IsExpr f → (∀ a ∈ args, IsExpr a) → IsExpr (.call f args builtin place)
  | member : IsExpr o → IsExpr (.member o property place)

inductive IsParam : Code → Prop
  | param : IsParam (.param n type place)

inductive IsStatement : Code → Prop
  | ret : IsExpr e → IsStatement (.ret e place)
  | expr : IsExpr e → IsStatement (.expr e place)

inductive IsTopStatement : Code → Prop
  | alias : IsTopStatement (.alias n type place)
  | declare : (∀ p ∈ params, IsParam p) → IsTopStatement (.declare n params result builtin place)
  | define : (∀ p ∈ params, IsParam p) → (∀ s ∈ body, IsStatement s) →
      IsTopStatement (.define n params result body builtin place)
  | expr : IsExpr e → IsTopStatement (.expr e place)

inductive IsProgram : Code → Prop
  | program : (∀ s ∈ ss, IsTopStatement s) → IsProgram (.program ss file place)

end Code

namespace Tree

theorem lowerAll_eq_mapM (ts : List Tree) : lowerAll ts = ts.mapM lower := by
  induction ts with
  | nil => rfl
  | cons t ts ih => rw [lowerAll, ih, List.mapM_cons]

def hasValue : Tree → Bool
  | .number text _ => Numeral.isReadable text
  | _ => true

def IsReadable (t : Tree) : Prop := ∀ s ∈ t.preorder, s.hasValue

theorem isReadable_iff {t : Tree} :
    t.IsReadable ↔ t.hasValue ∧ ∀ s ∈ t.children, s.IsReadable := by
  rw [IsReadable, preorder_eq_cons, List.forall_mem_cons, List.forall_mem_flatMap]
  rfl

theorem isReadable_iff_of_children_eq_nil {t : Tree} (h : t.children = []) :
    t.IsReadable ↔ t.hasValue := by
  simp [isReadable_iff (t := t), h]

abbrev IsNumeral (text : String) : Prop := Numeral.IsNumeral text.toList

def LowersTo (Q : Code → Prop) (t : Tree) : Prop :=
  Settles t.lower t.IsReadable Q fun e =>
    ∃ n, Numeral.digitLimit < n ∧ e = .numeral (.tooManyDigits n)

variable {Q : Code → Prop}

theorem lowerAll_settles {ts : List Tree} (h : ∀ t ∈ ts, t.LowersTo Q) :
    Settles (lowerAll ts) (∀ t ∈ ts, t.IsReadable) (fun cs => ∀ c ∈ cs, Q c) fun e =>
      ∃ n, Numeral.digitLimit < n ∧ e = .numeral (.tooManyDigits n) := by
  rw [lowerAll_eq_mapM]
  exact .mapM h

theorem IsExpr.lowersTo {t : Tree} (h : t.IsExpr IsNumeral) : t.LowersTo Code.IsExpr := by
  rw [LowersTo]
  induction h with
  | number h =>
    rw [lower]
    have hread := (Value.ofNumeral_settles h).gives fun _ => Value.isNumber_of_ofNumeral
    refine (hread.bind fun v hv => .ok trivial (.number hv)).congr ?_
    rw [isReadable_iff_of_children_eq_nil rfl, hasValue, and_true]
  | string => exact .ok ((isReadable_iff_of_children_eq_nil rfl).2 rfl) .text
  | name => exact .ok ((isReadable_iff_of_children_eq_nil rfl).2 rfl) .name
  | binary _ _ ihl ihr =>
    rw [lower]
    refine (ihl.bind fun l hl => ihr.bind fun r hr => .ok trivial (.binary hl hr)).congr ?_
    rw [isReadable_iff (t := .binary ..)]
    simp [children, hasValue]
  | call _ _ ihf ihargs =>
    rw [lower]
    refine (ihf.bind fun f hf => (lowerAll_settles ihargs).bind fun args hargs =>
      .ok trivial (.call hf hargs)).congr ?_
    rw [isReadable_iff (t := .call ..)]
    simp [children, hasValue]
  | member _ ih =>
    rw [lower]
    refine (ih.bind fun o ho => .ok trivial (.member ho)).congr ?_
    rw [isReadable_iff (t := .member ..)]
    simp [children, hasValue]

theorem IsParam.lowersTo {t : Tree} (h : t.IsParam) : t.LowersTo Code.IsParam := by
  cases h
  exact .ok ((isReadable_iff_of_children_eq_nil rfl).2 rfl) .param

theorem IsStatement.lowersTo {t : Tree} (h : t.IsStatement IsNumeral) :
    t.LowersTo Code.IsStatement := by
  rw [LowersTo, isReadable_iff]
  cases h with
  | ret h =>
    rw [lower]
    exact (h.lowersTo.bind fun e he => .ok trivial (.ret he)).congr (by simp [children, hasValue])
  | expr h =>
    rw [lower]
    exact (h.lowersTo.bind fun e he => .ok trivial (.expr he)).congr (by simp [children, hasValue])

theorem IsTopStatement.lowersTo {t : Tree} (h : t.IsTopStatement IsNumeral) :
    t.LowersTo Code.IsTopStatement := by
  rw [LowersTo, isReadable_iff]
  match h with
  | .alias _ => exact .ok (by simp [children, hasValue]) .alias
  | .declare hparams _ =>
    rw [lower]
    exact ((lowerAll_settles fun p hp => (hparams p hp).lowersTo).bind fun ps hps =>
      .ok trivial (.declare hps)).congr (by simp [children, hasValue])
  | .define hparams _ hbody =>
    rw [lower]
    exact ((lowerAll_settles fun p hp => (hparams p hp).lowersTo).bind fun ps hps =>
      (lowerAll_settles fun s hs => (hbody s hs).lowersTo).bind fun ss hss =>
        .ok trivial (.define hps hss)).congr (by simp [children, hasValue, or_imp, forall_and])
  | .expr h _ =>
    rw [lower]
    exact (h.lowersTo.bind fun e he => .ok trivial (.expr he)).congr (by simp [children, hasValue])

theorem IsProgram.lowersTo {t : Tree} (h : t.IsProgram IsNumeral) :
    t.LowersTo Code.IsProgram := by
  rw [LowersTo, isReadable_iff]
  cases h with
  | program hss =>
    rw [lower]
    exact ((lowerAll_settles fun s hs => (hss s hs).lowersTo).bind fun ss hss =>
      .ok trivial (.program hss)).congr (by simp [children, hasValue])

end Tree

end StructLang
