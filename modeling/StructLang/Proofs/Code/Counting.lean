import StructLang.Proofs.Code.Folded
import StructLang.Proofs.Code.Shape
import StructLang.Proofs.Code.Walk
import StructLang.Script.Module

namespace StructLang

theorem getElem?_of_forall₂ {α β : Type} {R : α → β → Prop} {as : List α} {bs : List β}
    (h : List.Forall₂ R as bs) (i : Nat) :
    (as[i]? = none ∧ bs[i]? = none) ∨ ∃ a b, as[i]? = some a ∧ bs[i]? = some b ∧ R a b := by
  induction h generalizing i with
  | nil => exact .inl ⟨rfl, rfl⟩
  | cons hab _ ih =>
    cases i with
    | zero => exact .inr ⟨_, _, rfl, rfl, hab⟩
    | succ i => simpa using ih i

namespace Code

open Script

variable {c c' d : Code}

section Places

theorem FoldsAll.forall₂ {cs cs' : List Code} (h : FoldsAll cs cs') :
    List.Forall₂ Folds cs cs' := by
  induction cs generalizing cs' with
  | nil =>
    cases h
    exact .nil
  | cons c cs ih =>
    cases h with
    | cons h hs => exact .cons h (ih hs)

/-- What becomes of the nodes in a folded one: it is sealed and stays, or all of them become
literals, or they are folded one by one; only parameters are not looked at. -/
theorem Folds.children_cases (h : Folds c c') :
    (c.isSealed ∧ c' = c) ∨ c.isSealed = false ∧ c'.isSealed = false ∧
      ((c'.children = [] ∧ ∀ d ∈ c.children, ∃ v type place, Folds d (.literal v type place)) ∨
        List.Forall₂ (fun d d' => Folds d d' ∨ d' = d ∧ d ∈ functionParams c)
          c.children c'.children) := by
  have hfolds {cs cs' params : List Code} (h : FoldsAll cs cs') :
      List.Forall₂ (fun d d' => Folds d d' ∨ d' = d ∧ d ∈ params) cs cs' :=
    h.forall₂.imp fun _ _ => .inl
  have hparams (params : List Code) :
      List.Forall₂ (fun d d' => Folds d d' ∨ d' = d ∧ d ∈ params) params params :=
    List.forall₂_same.2 fun _ hp => .inr ⟨rfl, hp⟩
  match h with
  | .libraryCall | .member => exact .inl ⟨rfl, rfl⟩
  | .sum hl hr _ _ =>
    refine .inr ⟨rfl, rfl, .inl ⟨rfl, ?_⟩⟩
    exact List.forall_mem_cons.2 ⟨⟨_, _, _, hl⟩, List.forall_mem_singleton.2 ⟨_, _, _, hr⟩⟩
  | .literal | .name | .param | .alias => exact .inr ⟨rfl, rfl, .inr .nil⟩
  | .binary hl hr _ => exact .inr ⟨rfl, rfl, .inr (.cons (.inl hl) (.cons (.inl hr) .nil))⟩
  | .call hf hargs => exact .inr ⟨rfl, rfl, .inr (.cons (.inl hf) (hfolds hargs))⟩
  | .expr he | .ret he => exact .inr ⟨rfl, rfl, .inr (.cons (.inl he) .nil)⟩
  | .declare => exact .inr ⟨rfl, rfl, .inr (hparams _)⟩
  | .emptied => exact .inr ⟨rfl, rfl, .inr (List.rel_append (hparams _) .nil)⟩
  | .define hbody => exact .inr ⟨rfl, rfl, .inr (List.rel_append (hparams _) (hfolds hbody))⟩
  | .program hss => exact .inr ⟨rfl, rfl, .inr (hfolds hss)⟩

theorem IsFolded.not_isConstantSum (h : c.IsFolded) : ¬c.IsConstantSum := by
  intro hsum
  cases h with
  | binary _ _ hne => exact hne hsum
  | _ => cases hsum

def HasPlainParams (c : Code) : Prop := ∀ f ∈ c.preorder, ∀ p ∈ functionParams f, p.IsParam

theorem HasPlainParams.of_mem_children (h : c.HasPlainParams) (hd : d ∈ c.children) :
    d.HasPlainParams := by
  intro f hf
  apply h
  rw [preorder_eq_cons]
  exact List.mem_cons_of_mem _ (List.mem_flatMap.2 ⟨d, hd, hf⟩)

theorem HasPlainParams.functionParams (h : c.HasPlainParams) : ∀ p ∈ functionParams c, p.IsParam :=
  h c (preorder_eq_cons c ▸ List.mem_cons_self)

theorem not_isConstantSum_of_exposed (hd : Exposed d c') (h : Folds c c')
    (hparams : c.HasPlainParams) : ¬d.IsConstantSum := by
  induction hd generalizing c with
  | self => exact h.isFolded.not_isConstantSum
  | child hseal he _ ih =>
    obtain ⟨hs, rfl⟩ | ⟨-, -, ⟨hnil, -⟩ | hall⟩ := h.children_cases
    · simp [hseal] at hs
    · simp [hnil] at he
    · obtain ⟨e₀, he₀, hfold⟩ := (covers_of_forall₂ hall).2 _ he
      refine ih ?_ (hparams.of_mem_children he₀)
      obtain hfold | ⟨rfl, hp⟩ := hfold
      · exact hfold
      · -- a parameter is folded to itself
        cases hparams.functionParams _ hp
        exact .param

theorem not_isSealed_of_nodeAt? (hnil : c.children = []) (hc : c.isSealed = false)
    {path : List Nat} (h : c.nodeAt? path = some d) : d.isSealed = false := by
  cases path with
  | nil =>
    cases h
    exact hc
  | cons i path => simp [nodeAt?, hnil] at h

theorem Folds.nodeAt?_iff (h : Folds c c') (hd : d.isSealed) (path : List Nat) :
    c'.nodeAt? path = some d ↔ c.nodeAt? path = some d := by
  induction path generalizing c c' with
  | nil =>
    obtain ⟨-, rfl⟩ | ⟨hc, hc', -⟩ := h.children_cases
    · rfl
    · have hne {e : Code} (he : e.isSealed = false) : nodeAt? [] e ≠ some d := by
        rintro ⟨⟩
        simp [he] at hd
      exact iff_of_false (hne hc') (hne hc)
  | cons i path ih =>
    rw [nodeAt?, nodeAt?]
    obtain ⟨-, rfl⟩ | ⟨-, -, ⟨hnil, hlits⟩ | hall⟩ := h.children_cases
    · rfl
    · -- nothing in a literal is sealed, so nothing was in the term that it comes from
      refine iff_of_false (by simp [hnil]) fun hpath => ?_
      obtain ⟨e, he, hpath⟩ := Option.bind_eq_some_iff.1 hpath
      obtain ⟨v, type, place, hlit⟩ := hlits e (List.mem_of_getElem? he)
      have hfalse := not_isSealed_of_nodeAt? rfl rfl ((ih hlit).2 hpath)
      simp [hfalse] at hd
    · obtain ⟨hnone, hnone'⟩ | ⟨a, b, ha, hb, hfold | ⟨rfl, -⟩⟩ := getElem?_of_forall₂ hall i
      · rw [hnone, hnone']
      · rw [ha, hb]
        exact ih hfold
      · rw [ha, hb]

end Places

section Counts

theorem runs_modify {g : Tally → Tally} {t t' : Tally} {u : Unit} :
    Runs (modify g) t u t' ↔ g t = t' := by
  change ((Except.ok (), g t) : Except Fault Unit × Tally) = (.ok u, t') ↔ _
  simp

theorem folds_add_one_of_foldSum {a b : Value} {type : Ty} {place : Option Span} {t t' : Tally}
    (h : Runs (foldSum a b type place) t c t') : t'.folds = t.folds + 1 := by
  obtain ⟨_, _, hcount, h⟩ := runs_bind.1 h
  obtain ⟨_, _, hleft, h⟩ := runs_bind.1 h
  obtain ⟨_, _, hright, h⟩ := runs_bind.1 h
  obtain ⟨_, _, hlist, h⟩ := runs_bind.1 h
  obtain ⟨_, _, hadd, h⟩ := runs_bind.1 h
  rw [← (runs_pure.1 h).2, ← (runs_liftExcept.1 hadd).2, ← runs_modify.1 hlist,
    ← (runs_liftExcept.1 hright).2, ← (runs_liftExcept.1 hleft).2, ← runs_modify.1 hcount]

variable {k : String} {t t' : Tally}

theorem balanced_of_children (hkind : c'.kind = c.kind)
    (h : (c'.children.map (count k)).sum + t'.folds = (c.children.map (count k)).sum + t.folds) :
    c'.count k + t'.folds = c.count k + t.folds := by
  rw [count_eq_add k c, count_eq_add k c', hkind]
  omega

theorem foldBinary_balanced (hk : k = "BinaryIR" ∨ k = "LiteralIR") {op : Operator} {l r : Code}
    {place : Option Span} (h : Runs (foldBinary op l r place) t c t') :
    c.count k + t'.folds = (binary op l r place).count k + t.folds := by
  rw [foldBinary.eq_def] at h
  split at h
  · split at h
    · have hfolds := folds_add_one_of_foldSum h
      obtain ⟨v, -, rfl⟩ := folds_of_foldSum h
      obtain rfl | rfl := hk
      all_goals
        simp only [count_eq_add, kind, String.reduceEq, ↓reduceIte, children, List.map_nil,
          List.sum_nil, List.map_cons, List.sum_cons]
        omega
    · obtain ⟨rfl, rfl⟩ := runs_pure.1 h
      rfl
  · obtain ⟨rfl, rfl⟩ := runs_pure.1 h
    rfl

theorem markBuiltin_folds (h : Runs (markBuiltin c) t c' t') : t'.folds = t.folds := by
  obtain ⟨_, _, hcount, h⟩ := runs_bind.1 h
  rw [← (runs_pure.1 h).2, ← runs_modify.1 hcount]

mutual

theorem foldM_balanced (hk : k = "BinaryIR" ∨ k = "LiteralIR") {c c' : Code} {t t' : Tally}
    (h : Runs c.foldM t c' t') : c'.count k + t'.folds = c.count k + t.folds := by
  match c with
  | .binary op left right place =>
    rw [foldM] at h
    obtain ⟨l, _, hl, h⟩ := runs_bind.1 h
    obtain ⟨r, _, hr, h⟩ := runs_bind.1 h
    have hleft := foldM_balanced hk hl
    have hright := foldM_balanced hk hr
    rw [foldBinary_balanced hk h]
    refine balanced_of_children rfl ?_
    simp only [children, List.map_cons, List.map_nil, List.sum_cons, List.sum_nil]
    omega
  | .call callee args true place | .literal .. | .name .. | .member .. | .param .. | .alias .. =>
    obtain ⟨rfl, rfl⟩ := runs_pure.1 h
    rfl
  | .call callee args false place =>
    rw [foldM] at h
    obtain ⟨f, _, hf, h⟩ := runs_bind.1 h
    obtain ⟨as, _, has, h⟩ := runs_bind.1 h
    obtain ⟨rfl, rfl⟩ := runs_pure.1 h
    have hcallee := foldM_balanced hk hf
    have hargs := foldAll_balanced hk has
    refine balanced_of_children rfl ?_
    simp only [children, List.map_cons, List.sum_cons]
    omega
  | .expr e place | .ret e place =>
    rw [foldM] at h
    obtain ⟨e', _, he, h⟩ := runs_bind.1 h
    obtain ⟨rfl, rfl⟩ := runs_pure.1 h
    refine balanced_of_children rfl ?_
    simpa [children] using foldM_balanced hk he
  | .declare n params result builtin place =>
    rw [foldM] at h
    rw [markBuiltin_folds h, ← runs_markBuiltin h]
    exact balanced_of_children rfl rfl
  | .define n params result [] builtin place =>
    rw [foldM] at h
    have hfolds := markBuiltin_folds h
    obtain rfl := runs_markBuiltin h
    refine balanced_of_children rfl ?_
    rw [hfolds]
    rfl
  | .define n params result (s :: body) builtin place =>
    rw [foldM] at h
    obtain ⟨body', _, hbody, h⟩ := runs_bind.1 h
    obtain ⟨rfl, rfl⟩ := runs_pure.1 h
    have hall := foldAll_balanced hk hbody
    refine balanced_of_children rfl ?_
    simp only [children, List.map_append, List.sum_append]
    omega
  | .program ss file place =>
    rw [foldM] at h
    obtain ⟨ss', _, hss, h⟩ := runs_bind.1 h
    obtain ⟨rfl, rfl⟩ := runs_pure.1 h
    exact balanced_of_children rfl (foldAll_balanced hk hss)
  | .unruled place => cases h
  | .nothing => cases h

theorem foldAll_balanced (hk : k = "BinaryIR" ∨ k = "LiteralIR") {cs cs' : List Code}
    {t t' : Tally} (h : Runs (foldAll cs) t cs' t') :
    (cs'.map (count k)).sum + t'.folds = (cs.map (count k)).sum + t.folds := by
  match cs with
  | [] =>
    obtain ⟨rfl, rfl⟩ := runs_pure.1 h
    rfl
  | c :: cs =>
    rw [foldAll] at h
    obtain ⟨c', _, hc, h⟩ := runs_bind.1 h
    obtain ⟨cs', _, hcs, h⟩ := runs_bind.1 h
    obtain ⟨rfl, rfl⟩ := runs_pure.1 h
    have hhead := foldM_balanced hk hc
    have htail := foldAll_balanced hk hcs
    simp only [List.map_cons, List.sum_cons]
    omega

end

end Counts

/-- Folding leaves no sum of two literals of one type outside sealed nodes, each sum in its tally is
one binary node and one literal less, and sealed nodes stay where and as they are. -/
theorem fold_complete {t : Tally} (hparams : c.HasPlainParams) (h : (c.fold t).1 = .ok c') :
    (∀ d, Exposed d c' → ¬d.IsConstantSum) ∧
      c'.count "BinaryIR" + (c.fold t).2.folds = c.count "BinaryIR" + t.folds ∧
      c'.count "LiteralIR" + (c.fold t).2.folds = c.count "LiteralIR" + t.folds ∧
      ∀ path d, d.isSealed → (c'.nodeAt? path = some d ↔ c.nodeAt? path = some d) := by
  have hfolds := folds_of_fold h
  have hrun : Runs c.foldM t c' (c.fold t).2 := Prod.ext h rfl
  refine ⟨fun d hd => ?_, ?_, ?_, fun path d hd => ?_⟩
  · exact not_isConstantSum_of_exposed hd hfolds hparams
  · exact foldM_balanced (.inl rfl) hrun
  · exact foldM_balanced (.inr rfl) hrun
  · exact hfolds.nodeAt?_iff hd path

theorem fold_complete_sealed :
    let s (text : String) : Code := .literal (.text text) .string none
    let sum (l r : Code) : Code := .binary .add l r none
    let ab := sum (s "a") (s "b")
    let member : Code := .member ab "x" none
    let print : Code := .call (.name "print" none) [ab] true none
    let call : Code := .call (.name "f" none) [member, print] false none
    let program (e : Code) : Code := .program [.define "h" [.param "x" .string none] .string
      [.ret (sum e call) none] false none] "main" none
    let c := program (sum ab (s "c"))
    let c' := program (s "abc")
    (c.HasPlainParams ∧ (c.fold {}).1 = .ok c') ∧ (∀ d, Exposed d c' → ¬d.IsConstantSum) ∧
      (c'.count "BinaryIR" + (c.fold {}).2.folds = c.count "BinaryIR" ∧
        c'.count "BinaryIR" = 3 ∧ (c.fold {}).2.folds = 2) ∧
      c'.nodeAt? [0, 1, 0, 1, 2] = some print := by
  intro s sum ab member print call program c c'
  have hparams : c.HasPlainParams := by
    simp [HasPlainParams, c, program, call, sum, ab, member, print, s, preorder, preorderAll,
      functionParams, IsParam.param]
  have hfold : (c.fold {}).1 = .ok c' := rfl
  obtain ⟨hsums, hcount, -, hsealed⟩ := fold_complete hparams hfold
  exact ⟨⟨hparams, hfold⟩, hsums, ⟨hcount, rfl, rfl⟩, (hsealed _ print rfl).2 rfl⟩

end Code

end StructLang
