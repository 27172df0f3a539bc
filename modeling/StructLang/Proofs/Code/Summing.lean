import StructLang.Proofs.Code.Shape

namespace StructLang.Code

/-- The terms of a sum of two literals, given the literals that the operands are folded to. -/
def terms? : Operator → Option Value → Option Value → Option (Value × Value)
  | .add, some a, some b => if a.areAddable b then some (a, b) else none
  | _, _, _ => none

def constant? : Code → Option Value
  | .literal v _ _ => some v
  | .binary op l r _ =>
    (terms? op l.constant? r.constant?).bind fun s => (s.1.add s.2).toOption
  | _ => none

mutual

def sums : Code → List (Value × Value)
  | .binary op l r _ => l.sums ++ r.sums ++ (terms? op l.constant? r.constant?).toList
  | .call f args builtin _ => if builtin then [] else f.sums ++ sumsAll args
  | .expr e _ | .ret e _ => e.sums
  | .define _ _ _ body _ _ => sumsAll body
  | .program ss _ _ => sumsAll ss
  | _ => []

def sumsAll : List Code → List (Value × Value)
  | [] => []
  | c :: cs => c.sums ++ sumsAll cs

end

theorem sumsAll_eq_flatMap (cs : List Code) : sumsAll cs = cs.flatMap sums := by
  induction cs with
  | nil => rfl
  | cons c cs ih => rw [sumsAll, ih, List.flatMap_cons]

theorem foldAll_eq_mapM (cs : List Code) : foldAll cs = cs.mapM foldM := by
  induction cs with
  | nil => rfl
  | cons c cs ih => rw [foldAll, ih, List.mapM_cons]

def IsFit (s : Value × Value) : Prop := s.1.isWritable ∧ s.2.isWritable ∧ s.1.sumsWith s.2

def IsSummable (c : Code) : Prop := ∀ s ∈ c.sums, IsFit s

def IsSumFault (e : Fault) : Prop := e = .unwritable ∨ e = .tooLarge

def FoldsTo (Q : Code → Prop) (c : Code) : Prop := SettlesM c.foldM c.IsSummable Q IsSumFault

variable {Q : Code → Prop}

theorem foldAll_settles {cs : List Code} (h : ∀ c ∈ cs, c.FoldsTo Q) :
    SettlesM (foldAll cs) (∀ s ∈ sumsAll cs, IsFit s) (fun cs => ∀ c ∈ cs, Q c) IsSumFault := by
  rw [foldAll_eq_mapM, sumsAll_eq_flatMap]
  exact (SettlesM.mapM h).congr List.forall_mem_flatMap.symm

theorem foldSum_settles {a b : Value} (h : a.areAddable b) (type : Ty) (place : Option Span) :
    SettlesM (foldSum a b type place) (IsFit (a, b))
      (fun c => ∃ v, a.add b = .ok v ∧ c = .literal v type place) IsSumFault := by
  have hlisting (v : Value) : Settles v.listing v.isWritable (fun _ => True) IsSumFault :=
    v.listing_settles.weaken fun _ => .inl
  have hadd : Settles (a.add b) (a.sumsWith b) (fun v => a.add b = .ok v) IsSumFault :=
    ((Value.add_settles h).gives fun _ => id).weaken fun _ => .inr
  rw [foldSum]
  refine ((SettlesM.modify trivial).bind fun _ _ => (SettlesM.mk (hlisting a)).bind fun _ _ =>
    (SettlesM.mk (hlisting b)).bind fun _ _ => (SettlesM.modify trivial).bind fun _ _ =>
    (SettlesM.mk hadd).bind fun v hv => .pure trivial ⟨v, hv, rfl⟩).congr ?_
  simp [IsFit]

def value? : Code → Option Value
  | .literal v _ _ => some v
  | _ => none

theorem terms?_eq_some {op : Operator} {l r : Code} {s : Value × Value}
    (h : terms? op l.value? r.value? = some s) :
    ∃ t t' p p', op = .add ∧ l = .literal s.1 t p ∧ r = .literal s.2 t' p' ∧
      s.1.areAddable s.2 := by
  rw [terms?.eq_def] at h
  split at h
  · rename_i a b ha hb
    split at h
    · rename_i hadd
      cases h
      cases l with
      | literal =>
        cases ha
        cases r with
        | literal =>
          cases hb
          exact ⟨_, _, _, _, rfl, rfl, rfl, hadd⟩
        | _ => cases hb
      | _ => cases ha
    · cases h
  · cases h

theorem isText_of_isNumber {v : Value} (h : v.isNumber) : v.isText = false := by
  cases v <;> first | rfl | cases h

theorem foldable_eq_areAddable {a b : Value} {t t' : Ty} {p p' : Option Span}
    (ha : (literal a t p).IsExpr) (hb : (literal b t' p').IsExpr) :
    foldable t t' = a.areAddable b := by
  cases ha with
  | number ha =>
    cases hb with
    | number hb => simp [Value.areAddable, ha, hb, foldable, Ty.isNumber, Ty.number]
    | text => simp [Value.areAddable, isText_of_isNumber ha, Value.isNumber, foldable, Ty.isNumber,
        Ty.isString, Ty.number, Ty.string]
  | text =>
    cases hb with
    | number hb => simp [Value.areAddable, isText_of_isNumber hb, Value.isNumber, foldable,
        Ty.isNumber, Ty.isString, Ty.number, Ty.string]
    | text => rfl

theorem IsExpr.of_add {a b v : Value} {t t' : Ty} {p p' : Option Span}
    (ha : (literal a t p).IsExpr) (hb : (literal b t' p').IsExpr) (hadd : a.areAddable b)
    (h : a.add b = .ok v) (place : Option Span) : (literal v t place).IsExpr := by
  cases ha with
  | number ha =>
    simp only [Value.areAddable, ha, isText_of_isNumber ha, Bool.true_and, Bool.false_and,
      Bool.or_false] at hadd
    exact .number (Value.isNumber_of_add ha hadd h)
  | text =>
    cases b with
    | text s =>
      cases h
      exact .text
    | _ => cases hadd

theorem foldBinary_settles {op : Operator} {l r : Code} (hl : l.IsExpr) (hr : r.IsExpr)
    (place : Option Span) :
    SettlesM (foldBinary op l r place) (∀ s ∈ terms? op l.value? r.value?, IsFit s)
      (fun c => c.IsExpr ∧
        c.value? = (terms? op l.value? r.value?).bind fun s => (s.1.add s.2).toOption)
      IsSumFault := by
  cases hs : terms? op l.value? r.value? with
  | some s =>
    obtain ⟨t, t', p, p', rfl, rfl, rfl, hadd⟩ := terms?_eq_some hs
    rw [foldBinary, if_pos ((foldable_eq_areAddable hl hr).trans hadd)]
    refine ((foldSum_settles hadd t place).imp ?_).congr (by simp)
    rintro c ⟨v, hv, rfl⟩
    exact ⟨hl.of_add hr hadd hv place, by simp [value?, hv, Except.toOption]⟩
  | none =>
    have hnone : foldBinary op l r place = pure (.binary op l r place) := by
      rw [foldBinary.eq_def]
      split
      · rw [if_neg]
        rw [foldable_eq_areAddable hl hr]
        intro hadd
        simp [value?, terms?, hadd] at hs
      · rfl
    rw [hnone]
    exact .pure (by simp) ⟨.binary hl hr, rfl⟩

theorem IsExpr.foldM_settles {c : Code} (h : c.IsExpr) :
    SettlesM c.foldM c.IsSummable (fun c' => c'.IsExpr ∧ c'.value? = c.constant?) IsSumFault := by
  rw [IsSummable]
  induction h with
  | number h => exact .pure (by simp [sums]) ⟨.number h, rfl⟩
  | text => exact .pure (by simp [sums]) ⟨.text, rfl⟩
  | name => exact .pure (by simp [sums]) ⟨.name, rfl⟩
  | @binary l r op place _ _ ihl ihr =>
    rw [foldM, constant?]
    refine SettlesM.congr (P := _ ∧ _ ∧ ∀ s ∈ terms? op l.constant? r.constant?, IsFit s)
      (ihl.bind fun l' hl => ihr.bind fun r' hr => ?_) ?_
    · rw [← hl.2, ← hr.2]
      exact foldBinary_settles hl.1 hr.1 place
    · simp [sums, or_imp, forall_and]
  | @call f args builtin place hf hargs ihf ihargs =>
    rw [foldM]
    cases builtin with
    | true => exact .pure (by simp [sums]) ⟨.call hf hargs, rfl⟩
    | false =>
      have hall := foldAll_settles fun a ha => (ihargs a ha).imp fun _ => And.left
      refine (ihf.bind fun f hf => hall.bind fun args hargs =>
        .pure trivial ⟨.call hf.1 hargs, rfl⟩).congr ?_
      simp [sums, or_imp, forall_and]
  | member h ih => exact .pure (by simp [sums]) ⟨.member h, rfl⟩

theorem IsExpr.foldsTo {c : Code} (h : c.IsExpr) : c.FoldsTo IsExpr :=
  h.foldM_settles.imp fun _ => And.left

theorem IsStatement.foldsTo {c : Code} (h : c.IsStatement) : c.FoldsTo IsStatement := by
  rw [FoldsTo, IsSummable]
  cases h with
  | ret h =>
    rw [foldM, sums]
    exact h.foldsTo.andThen fun e he => .pure trivial (.ret he)
  | expr h =>
    rw [foldM, sums]
    exact h.foldsTo.andThen fun e he => .pure trivial (.expr he)

theorem markBuiltin_settles {c : Code} (h : Q c) :
    SettlesM (markBuiltin c) True Q IsSumFault := by
  rw [markBuiltin]
  exact (SettlesM.modify trivial).andThen fun _ _ => .pure trivial h

theorem IsTopStatement.foldsTo {c : Code} (h : c.IsTopStatement) : c.FoldsTo IsTopStatement := by
  rw [FoldsTo, IsSummable]
  match h with
  | .alias => exact .pure (by simp [sums]) .alias
  | .declare hparams =>
    rw [foldM]
    exact (markBuiltin_settles (.declare hparams)).congr (by simp [sums])
  | @IsTopStatement.define params body .. =>
    rename_i hparams hbody
    rw [foldM, sums]
    cases body with
    | nil => exact (markBuiltin_settles (.define hparams hbody)).congr (by simp [sumsAll])
    | cons s body =>
      exact (foldAll_settles fun s hs => (hbody s hs).foldsTo).andThen fun ss hss =>
        .pure trivial (.define hparams hss)
  | .expr h =>
    rw [foldM, sums]
    exact h.foldsTo.andThen fun e he => .pure trivial (.expr he)

theorem IsProgram.foldsTo {c : Code} (h : c.IsProgram) : c.FoldsTo IsProgram := by
  cases h with
  | program hss =>
    rw [FoldsTo, IsSummable, foldM, sums]
    exact (foldAll_settles fun s hs => (hss s hs).foldsTo).andThen fun ss hss =>
      .pure trivial (.program hss)

end StructLang.Code
