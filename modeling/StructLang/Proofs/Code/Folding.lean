import StructLang.Code.Fold
import StructLang.Proofs.Outcome

namespace StructLang.Code

variable {α β : Type}

def Runs (x : FoldM α) (t : Tally) (a : α) (t' : Tally) : Prop := x.run.run t = (.ok a, t')

theorem runs_bind {x : FoldM α} {f : α → FoldM β} {t t' : Tally} {b : β} :
    Runs (x >>= f) t b t' ↔ ∃ a s, Runs x t a s ∧ Runs (f a) s b t' := by
  rw [Runs, run_bind]
  cases hx : x.run.run t with
  | mk a s =>
    cases a with
    | error e =>
      constructor
      · intro h
        cases h
      · rintro ⟨a, s', h, _⟩
        cases hx.symm.trans h
    | ok a =>
      constructor
      · intro h
        exact ⟨a, s, hx, h⟩
      · rintro ⟨a', s', h, hf⟩
        cases hx.symm.trans h
        exact hf

theorem runs_pure {a b : α} {t t' : Tally} : Runs (pure a) t b t' ↔ a = b ∧ t = t' := by
  change ((Except.ok a, t) : Except Fault α × Tally) = (.ok b, t') ↔ _
  simp

theorem runs_liftExcept {e : Except Fault α} {a : α} {t t' : Tally} :
    Runs (foldSum.liftExcept e) t a t' ↔ e = .ok a ∧ t = t' := by
  change (e, t) = (.ok a, t') ↔ _
  simp

/-- A sum of two literals that are both numbers or both strings. -/
inductive IsConstantSum : Code → Prop
  | number : IsConstantSum (.binary .add (.literal a .number p) (.literal b .number q) place)
  | string : IsConstantSum (.binary .add (.literal a .string p) (.literal b .string q) place)

theorem isConstantSum_iff {a b : Value} {s t : Ty} {p q place : Option Span} :
    IsConstantSum (.binary .add (.literal a s p) (.literal b t q) place) ↔ foldable s t := by
  constructor
  · intro h
    cases h <;> rfl
  · intro h
    cases s with
    | prim m =>
      cases t with
      | prim n =>
        have hnames : m = "number" ∧ n = "number" ∨ m = "string" ∧ n = "string" := by
          simpa [foldable, Ty.isNumber, Ty.isString] using h
        obtain ⟨rfl, rfl⟩ | ⟨rfl, rfl⟩ := hnames
        · exact .number
        · exact .string
      | _ => simp [foldable, Ty.isNumber, Ty.isString] at h
    | _ => simp [foldable, Ty.isNumber, Ty.isString] at h

mutual

inductive Folds : Code → Code → Prop
  | literal : Folds (.literal v type place) (.literal v type place)
  | name : Folds (.name n place) (.name n place)
  | sum : Folds l (.literal a type p) → Folds r (.literal b type' q) → foldable type type' →
      a.add b = .ok v → Folds (.binary .add l r place) (.literal v type place)
  | binary : Folds l l' → Folds r r' → ¬IsConstantSum (.binary op l' r' place) →
      Folds (.binary op l r place) (.binary op l' r' place)
  | libraryCall : Folds (.call f args true place) (.call f args true place)
  | call : Folds f f' → FoldsAll args args' →
      Folds (.call f args false place) (.call f' args' false place)
  | member : Folds (.member o property place) (.member o property place)
  | param : Folds (.param n type place) (.param n type place)
  | expr : Folds e e' → Folds (.expr e place) (.expr e' place)
  | ret : Folds e e' → Folds (.ret e place) (.ret e' place)
  | alias : Folds (.alias n type place) (.alias n type place)
  | declare : Folds (.declare n params result builtin place) (.declare n params result true place)
  | emptied : Folds (.define n params result [] builtin place)
      (.define n params result [] true place)
  | define : FoldsAll (s :: body) body' →
      Folds (.define n params result (s :: body) builtin place)
        (.define n params result body' builtin place)
  | program : FoldsAll ss ss' → Folds (.program ss file place) (.program ss' file place)

inductive FoldsAll : List Code → List Code → Prop
  | nil : FoldsAll [] []
  | cons : Folds c c' → FoldsAll cs cs' → FoldsAll (c :: cs) (c' :: cs')

end

theorem folds_of_foldSum {a b : Value} {type : Ty} {place : Option Span} {t t' : Tally} {c : Code}
    (h : Runs (foldSum a b type place) t c t') :
    ∃ v, a.add b = .ok v ∧ c = .literal v type place := by
  obtain ⟨_, _, _, h⟩ := runs_bind.1 h
  obtain ⟨_, _, _, h⟩ := runs_bind.1 h
  obtain ⟨_, _, _, h⟩ := runs_bind.1 h
  obtain ⟨_, _, _, h⟩ := runs_bind.1 h
  obtain ⟨v, _, hv, h⟩ := runs_bind.1 h
  exact ⟨v, (runs_liftExcept.1 hv).1, (runs_pure.1 h).1.symm⟩

theorem folds_of_foldBinary {op : Operator} {l l' r r' c : Code} {place : Option Span}
    {t t' : Tally} (hl : Folds l l') (hr : Folds r r')
    (h : Runs (foldBinary op l' r' place) t c t') : Folds (.binary op l r place) c := by
  rw [foldBinary.eq_def] at h
  split at h
  · split at h
    · rename_i hfoldable
      obtain ⟨v, hv, rfl⟩ := folds_of_foldSum h
      exact .sum hl hr hfoldable hv
    · rename_i hfoldable
      rw [← (runs_pure.1 h).1]
      exact .binary hl hr (mt isConstantSum_iff.1 hfoldable)
  · rename_i hother
    rw [← (runs_pure.1 h).1]
    refine .binary hl hr fun hsum => ?_
    cases hsum <;> exact hother _ _ _ _ _ _ rfl rfl rfl

theorem runs_markBuiltin {c c' : Code} {t t' : Tally} (h : Runs (markBuiltin c) t c' t') :
    c = c' := by
  obtain ⟨_, _, _, h⟩ := runs_bind.1 h
  exact (runs_pure.1 h).1

mutual

theorem folds_of_foldM {c c' : Code} {t t' : Tally} (h : Runs c.foldM t c' t') : Folds c c' := by
  match c with
  | .literal v type place =>
    obtain ⟨rfl, _⟩ := runs_pure.1 h
    exact .literal
  | .name n place =>
    obtain ⟨rfl, _⟩ := runs_pure.1 h
    exact .name
  | .binary op left right place =>
    rw [foldM] at h
    obtain ⟨l, _, hl, h⟩ := runs_bind.1 h
    obtain ⟨r, _, hr, h⟩ := runs_bind.1 h
    exact folds_of_foldBinary (folds_of_foldM hl) (folds_of_foldM hr) h
  | .call callee args true place =>
    obtain ⟨rfl, _⟩ := runs_pure.1 h
    exact .libraryCall
  | .call callee args false place =>
    rw [foldM] at h
    obtain ⟨f, _, hf, h⟩ := runs_bind.1 h
    obtain ⟨as, _, has, h⟩ := runs_bind.1 h
    obtain ⟨rfl, _⟩ := runs_pure.1 h
    exact .call (folds_of_foldM hf) (foldsAll_of_foldAll has)
  | .member object property place =>
    obtain ⟨rfl, _⟩ := runs_pure.1 h
    exact .member
  | .param n type place =>
    obtain ⟨rfl, _⟩ := runs_pure.1 h
    exact .param
  | .expr e place =>
    rw [foldM] at h
    obtain ⟨e', _, he, h⟩ := runs_bind.1 h
    obtain ⟨rfl, _⟩ := runs_pure.1 h
    exact .expr (folds_of_foldM he)
  | .ret e place =>
    rw [foldM] at h
    obtain ⟨e', _, he, h⟩ := runs_bind.1 h
    obtain ⟨rfl, _⟩ := runs_pure.1 h
    exact .ret (folds_of_foldM he)
  | .alias n type place =>
    obtain ⟨rfl, _⟩ := runs_pure.1 h
    exact .alias
  | .declare n params result builtin place =>
    rw [foldM] at h
    obtain rfl := runs_markBuiltin h
    exact .declare
  | .define n params result [] builtin place =>
    rw [foldM] at h
    obtain rfl := runs_markBuiltin h
    exact .emptied
  | .define n params result (s :: body) builtin place =>
    rw [foldM] at h
    obtain ⟨body', _, hbody, h⟩ := runs_bind.1 h
    obtain ⟨rfl, _⟩ := runs_pure.1 h
    exact .define (foldsAll_of_foldAll hbody)
  | .program ss file place =>
    rw [foldM] at h
    obtain ⟨ss', _, hss, h⟩ := runs_bind.1 h
    obtain ⟨rfl, _⟩ := runs_pure.1 h
    exact .program (foldsAll_of_foldAll hss)
  | .unruled place => cases h
  | .nothing => cases h

theorem foldsAll_of_foldAll {cs cs' : List Code} {t t' : Tally} (h : Runs (foldAll cs) t cs' t') :
    FoldsAll cs cs' := by
  match cs with
  | [] =>
    obtain ⟨rfl, _⟩ := runs_pure.1 h
    exact .nil
  | c :: cs =>
    rw [foldAll] at h
    obtain ⟨c', _, hc, h⟩ := runs_bind.1 h
    obtain ⟨cs', _, hcs, h⟩ := runs_bind.1 h
    obtain ⟨rfl, _⟩ := runs_pure.1 h
    exact .cons (folds_of_foldM hc) (foldsAll_of_foldAll hcs)

end

theorem folds_of_fold {c c' : Code} {t : Tally} (h : (c.fold t).1 = .ok c') : Folds c c' := by
  have hrun : Runs c.foldM t c' (c.fold t).2 := Prod.ext h rfl
  exact folds_of_foldM hrun

def Oblivious (x : FoldM α) : Prop := ∀ s t, (x.run.run s).1 = (x.run.run t).1

theorem run_bind_fst (x : FoldM α) {f : α → FoldM β} (hf : ∀ a, Oblivious (f a)) (s t : Tally) :
    ((x >>= f).run.run s).1 = (x.run.run s).1 >>= fun a => ((f a).run.run t).1 := by
  rw [run_bind]
  cases x.run.run s with
  | mk r s' =>
    cases r with
    | ok a => exact hf a s' t
    | error e => rfl

theorem Oblivious.bind {x : FoldM α} {f : α → FoldM β} (hx : Oblivious x)
    (hf : ∀ a, Oblivious (f a)) : Oblivious (x >>= f) := by
  intro s t
  rw [run_bind_fst x hf s s, run_bind_fst x hf t s, hx s t]

theorem oblivious_foldBinary (op : Operator) (l r : Code) (place : Option Span) :
    Oblivious (foldBinary op l r place) := by
  have hlift {γ : Type} (e : Except Fault γ) : Oblivious (foldSum.liftExcept e) := fun _ _ => rfl
  rw [foldBinary.eq_def]
  split
  · split
    · refine .bind (fun _ _ => rfl) fun _ => (hlift _).bind fun _ => (hlift _).bind fun _ => ?_
      exact .bind (fun _ _ => rfl) fun _ => (hlift _).bind fun _ _ _ => rfl
    · exact fun _ _ => rfl
  · exact fun _ _ => rfl

mutual

theorem oblivious_foldM (c : Code) : Oblivious c.foldM := by
  match c with
  | .binary op l r place =>
    rw [foldM]
    exact (oblivious_foldM l).bind fun _ => (oblivious_foldM r).bind fun _ =>
      oblivious_foldBinary op _ _ place
  | .call callee args true place => exact fun _ _ => rfl
  | .call callee args false place =>
    rw [foldM]
    exact (oblivious_foldM callee).bind fun _ => (oblivious_foldAll args).bind fun _ _ _ => rfl
  | .expr e place | .ret e place =>
    rw [foldM]
    exact (oblivious_foldM e).bind fun _ _ _ => rfl
  | .define n params result [] builtin place => exact fun _ _ => rfl
  | .define n params result (s :: body) builtin place =>
    rw [foldM]
    exact (oblivious_foldAll (s :: body)).bind fun _ _ _ => rfl
  | .program ss file place =>
    rw [foldM]
    exact (oblivious_foldAll ss).bind fun _ _ _ => rfl
  | .literal .. | .name .. | .member .. | .param .. | .alias .. | .declare .. | .unruled _
  | .nothing => exact fun _ _ => rfl

theorem oblivious_foldAll (cs : List Code) : Oblivious (foldAll cs) := by
  match cs with
  | [] => exact fun _ _ => rfl
  | c :: cs =>
    rw [foldAll]
    exact (oblivious_foldM c).bind fun _ => (oblivious_foldAll cs).bind fun _ _ _ => rfl

end

theorem foldAll_fst (cs : List Code) (t : Tally) :
    ((foldAll cs).run.run t).1 = cs.mapM fun c => (c.fold {}).1 := by
  induction cs with
  | nil => rfl
  | cons c cs ih =>
    have hrest (c' : Code) : Oblivious (do return c' :: (← foldAll cs)) :=
      (oblivious_foldAll cs).bind fun _ _ _ => rfl
    rw [foldAll, run_bind_fst _ hrest t t, oblivious_foldM c t {}, List.mapM_cons]
    refine congrArg (_ >>= ·) (funext fun c' => ?_)
    rw [run_bind_fst _ (fun _ _ _ => rfl) t t, ih]
    rfl

theorem fold_program_eq_ok_iff {cs : List Code} {file : String} {place : Option Span} {c' : Code} :
    ((Code.program cs file place).fold {}).1 = .ok c' ↔
      ∃ cs', (cs.mapM fun c => (c.fold {}).1) = .ok cs' ∧ c' = .program cs' file place := by
  rw [fold, foldM, run_bind_fst _ (fun _ _ _ => rfl) {} {}, foldAll_fst, bind_eq_ok]
  refine exists_congr fun cs' => and_congr_right fun _ => ?_
  change Except.ok _ = Except.ok _ ↔ _
  rw [Except.ok.injEq, eq_comm]

end StructLang.Code
