import StructLang.Proofs.Code.Folding

namespace StructLang.Code

variable {α β : Type}

inductive IsFolded : Code → Prop
  | literal : IsFolded (.literal v type place)
  | name : IsFolded (.name n place)
  | binary : IsFolded l → IsFolded r → ¬IsConstantSum (.binary op l r place) →
      IsFolded (.binary op l r place)
  | libraryCall : IsFolded (.call f args true place)
  | call : IsFolded f → (∀ a ∈ args, IsFolded a) → IsFolded (.call f args false place)
  | member : IsFolded (.member o property place)
  | param : IsFolded (.param n type place)
  | expr : IsFolded e → IsFolded (.expr e place)
  | ret : IsFolded e → IsFolded (.ret e place)
  | alias : IsFolded (.alias n type place)
  | declare : IsFolded (.declare n params result true place)
  | emptied : IsFolded (.define n params result [] true place)
  | define : (∀ d ∈ s :: body, IsFolded d) →
      IsFolded (.define n params result (s :: body) builtin place)
  | program : (∀ s ∈ ss, IsFolded s) → IsFolded (.program ss file place)

mutual

theorem Folds.isFolded {c c' : Code} (h : Folds c c') : c'.IsFolded := by
  match h with
  | .literal | .sum _ _ _ _ => exact .literal
  | .name => exact .name
  | .binary hl hr hne => exact .binary hl.isFolded hr.isFolded hne
  | .libraryCall => exact .libraryCall
  | .call hf hargs => exact .call hf.isFolded hargs.isFolded
  | .member => exact .member
  | .param => exact .param
  | .expr he => exact .expr he.isFolded
  | .ret he => exact .ret he.isFolded
  | .alias => exact .alias
  | .declare => exact .declare
  | .emptied => exact .emptied
  | .define (.cons hs hbody) =>
    exact .define (List.forall_mem_cons.2 ⟨hs.isFolded, hbody.isFolded⟩)
  | .program hss => exact .program hss.isFolded

theorem FoldsAll.isFolded {cs cs' : List Code} (h : FoldsAll cs cs') : ∀ c ∈ cs', c.IsFolded := by
  match h with
  | .nil => simp
  | .cons h hs => exact List.forall_mem_cons.2 ⟨h.isFolded, hs.isFolded⟩

end

/-- The computation succeeds and folds nothing: in the tally, functions are all that is added. -/
def Idles (x : FoldM α) (a : α) : Prop :=
  ∀ t, ∃ n, Runs x t a { t with builtins := t.builtins + n }

namespace Idles

theorem pure (a : α) : Idles (pure a) a := fun _ => ⟨0, runs_pure.2 ⟨rfl, rfl⟩⟩

theorem bind {x : FoldM α} {f : α → FoldM β} {a : α} {b : β} (hx : Idles x a)
    (hf : Idles (f a) b) : Idles (x >>= f) b := by
  intro t
  obtain ⟨m, hm⟩ := hx t
  obtain ⟨n, hn⟩ := hf { t with builtins := t.builtins + m }
  refine ⟨m + n, runs_bind.2 ⟨a, _, hm, ?_⟩⟩
  rwa [← Nat.add_assoc]

theorem markBuiltin (c : Code) : Idles (markBuiltin c) c := fun _ => ⟨1, rfl⟩

theorem foldAll {cs : List Code} (h : ∀ c ∈ cs, Idles c.foldM c) : Idles (foldAll cs) cs := by
  induction cs with
  | nil => exact .pure []
  | cons c cs ih =>
    rw [List.forall_mem_cons] at h
    rw [Code.foldAll]
    exact h.1.bind ((ih h.2).bind (.pure _))

end Idles

theorem foldBinary_of_not_isConstantSum {op : Operator} {l r : Code} {place : Option Span}
    (h : ¬IsConstantSum (.binary op l r place)) :
    foldBinary op l r place = pure (.binary op l r place) := by
  rw [foldBinary.eq_def]
  split
  · rw [if_neg (mt isConstantSum_iff.2 h)]
  · rfl

theorem IsFolded.idles {c : Code} (h : c.IsFolded) : Idles c.foldM c := by
  induction h with
  | binary _ _ hne ihl ihr =>
    rw [foldM]
    refine ihl.bind (ihr.bind ?_)
    rw [foldBinary_of_not_isConstantSum hne]
    exact .pure _
  | call _ _ ihf ihargs =>
    rw [foldM]
    exact ihf.bind ((Idles.foldAll ihargs).bind (.pure _))
  | expr _ ih | ret _ ih =>
    rw [foldM]
    exact ih.bind (.pure _)
  | declare | emptied =>
    rw [foldM]
    exact .markBuiltin _
  | define _ ih | program _ ih =>
    rw [foldM]
    exact (Idles.foldAll ih).bind (.pure _)
  | _ => exact .pure _

/-- Folding leaves nothing to fold: once more, it gives the same code back and folds no sum. -/
theorem fold_idempotent {c c' : Code} {t : Tally} (h : (c.fold t).1 = .ok c') :
    c'.IsFolded ∧ (c'.fold {}).1 = .ok c' ∧ (c'.fold {}).2.folds = 0 := by
  have hfolded := (folds_of_fold h).isFolded
  obtain ⟨n, hrun⟩ := hfolded.idles {}
  have hfold : c'.fold {} = (.ok c', { builtins := 0 + n }) := hrun
  exact ⟨hfolded, by rw [hfold], by rw [hfold]⟩

theorem fold_idempotent_chain :
    let s (text : String) : Code := .literal (.text text) .string (some ⟨"main", 1, 1, 1, 1⟩)
    let sum (l r : Code) : Code := .binary .add l r none
    let x : Code := .name "x" none
    let f (a b : Code) : Code := .call (.name "f" none) [a, b] false none
    let print : Code := .call (.name "print" none) [sum (s "a") (s "b")] true none
    let params : List Code := [.param "x" .string none]
    let program (b : Bool) (e : Code) : Code := .program
      [.declare "f" params .string b none, .define "g" params .string [] b none,
        .define "h" params .string [.ret e none] false none] "main" none
    let c := program false (sum (sum (sum (s "a") (s "b")) x) (f print (sum (s "a") (s "b"))))
    let ab : Code := .literal (.text "ab") .string none
    let c' := program true (sum (sum ab x) (f print ab))
    (c.fold {}).1 = .ok c' ∧
      c'.IsFolded ∧ (c'.fold {}).1 = .ok c' ∧ (c'.fold {}).2.folds = 0 := by
  intro s sum x f print params program c ab c'
  have hfold : (c.fold {}).1 = .ok c' := rfl
  exact ⟨hfold, fold_idempotent hfold⟩

end StructLang.Code
