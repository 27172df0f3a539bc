import StructLang.Proofs.Tree.Hygiene
import StructLang.Proofs.Typing.Collecting

namespace StructLang

open Aliases

namespace Table

variable {α β : Type}

def mapValues (f : α → β) (t : Table α) : Table β := t.map fun e => (e.1, f e.2)

theorem get?_mapValues (f : α → β) (t : Table α) (name : String) :
    (t.mapValues f).get? name = (t.get? name).map f := by
  induction t with
  | nil => rfl
  | cons e t ih =>
    rw [mapValues, List.map_cons, get?, get?]
    split
    · rfl
    · exact ih

theorem put_mapValues (f : α → β) (t : Table α) (name : String) (a : α) :
    (t.mapValues f).put name (f a) = (t.put name a).mapValues f := by
  induction t with
  | nil => rfl
  | cons e t ih =>
    rw [mapValues, List.map_cons, put, put]
    split
    · rfl
    · exact congrArg _ ih

end Table

def Signature.expand (Γ : Aliases) (s : Signature) : Signature where
  params := s.params.map Γ.expansion
  result := Γ.expansion s.result
  variadic := s.variadic

namespace Signature

variable (Γ : Aliases) (s : Signature)

@[simp] theorem result_expand : (s.expand Γ).result = Γ.expansion s.result := rfl

@[simp] theorem variadic_expand : (s.expand Γ).variadic = s.variadic := rfl

@[simp] theorem arity_expand : (s.expand Γ).arity = s.arity := List.length_map _

end Signature

namespace Tree

mutual

def expand (Γ : Aliases) : Tree → Tree
  | .binary op left right loc => .binary op (left.expand Γ) (right.expand Γ) loc
  | .call callee args loc => .call (callee.expand Γ) (expandAll Γ args) loc
  | .member object property loc => .member (object.expand Γ) property loc
  | .param n t loc => .param n (Γ.expansion t) loc
  | .alias n t loc => .alias n (Γ.expansion t) loc
  | .ret e loc => .ret (e.expand Γ) loc
  | .expr e ascribed loc => .expr (e.expand Γ) (ascribed.map Γ.expansion) loc
  | .declare n params result loc => .declare n (expandAll Γ params) (Γ.expansion result) loc
  | .define n params result body loc =>
    .define n (expandAll Γ params) (Γ.expansion result) (expandAll Γ body) loc
  | .program ss file loc => .program (expandAll Γ ss) file loc
  | t => t

def expandAll (Γ : Aliases) : List Tree → List Tree
  | [] => []
  | t :: ts => t.expand Γ :: expandAll Γ ts

end

mutual

theorem preorder_expand (Γ : Aliases) (t : Tree) :
    (t.expand Γ).preorder = t.preorder.map (expand Γ) := by
  cases t with
  | binary op left right loc =>
    simp [expand, preorder, preorder_expand Γ left, preorder_expand Γ right]
  | call callee args loc =>
    simp [expand, preorder, preorder_expand Γ callee, preorderAll_expandAll Γ args]
  | member object property loc => simp [expand, preorder, preorder_expand Γ object]
  | ret e loc | expr e ascribed loc => simp [expand, preorder, preorder_expand Γ e]
  | declare n params result loc => simp [expand, preorder, preorderAll_expandAll Γ params]
  | define n params result body loc =>
    simp [expand, preorder, preorderAll_expandAll Γ params, preorderAll_expandAll Γ body]
  | program ss file loc => simp [expand, preorder, preorderAll_expandAll Γ ss]
  | _ => rfl

theorem preorderAll_expandAll (Γ : Aliases) (ts : List Tree) :
    preorderAll (expandAll Γ ts) = (preorderAll ts).map (expand Γ) := by
  cases ts with
  | nil => rfl
  | cons t ts =>
    simp [expandAll, preorderAll, preorder_expand Γ t, preorderAll_expandAll Γ ts]

end

theorem expandAll_eq_map (Γ : Aliases) (ts : List Tree) : expandAll Γ ts = ts.map (expand Γ) := by
  induction ts with
  | nil => rfl
  | cons t ts ih => rw [expandAll, ih, List.map_cons]

variable {N : String → Prop} {Γ : Aliases} {t : Tree}

theorem expandAll_eq_self {ts : List Tree} (h : ∀ t ∈ ts, t.expand Γ = t) :
    expandAll Γ ts = ts := by
  rw [expandAll_eq_map, List.map_congr_left h, List.map_id']

theorem IsExpr.expand_eq (h : t.IsExpr N) : t.expand Γ = t := by
  induction h with
  | number | string | name => rfl
  | binary _ _ ihl ihr => rw [expand, ihl, ihr]
  | call _ _ ihf ihargs => rw [expand, ihf, expandAll_eq_self ihargs]
  | member _ ih => rw [expand, ih]

theorem IsStatement.expand_eq (h : t.IsStatement N) : t.expand Γ = t := by
  cases h with
  | ret h => rw [expand, h.expand_eq]
  | expr h =>
    rw [expand, h.expand_eq]
    rfl

def Resolves (Γ : Aliases) (t : Tree) : Prop :=
  ∀ s ∈ t.preorder, ∀ type ∈ s.annotation?, Γ.Resolves type

theorem resolves_iff : t.Resolves Γ ↔
    (∀ type ∈ t.annotation?, Γ.Resolves type) ∧ ∀ s ∈ t.children, s.Resolves Γ :=
  forall_mem_preorder

theorem IsExpr.resolves (h : t.IsExpr N) : t.Resolves Γ :=
  fun s hs => (h.annotates (B := fun _ => True) s hs).2

theorem IsStatement.resolves (h : t.IsStatement N) : t.Resolves Γ :=
  fun s hs => (h.annotates (B := fun _ => True) s hs).2

def isExpression : Tree → Bool
  | .number .. | .string .. | .name .. | .binary .. | .call .. | .member .. | .param .. => true
  | _ => false

theorem IsExpr.of_mem_preorder {t : Tree} (h : t.IsExpr N) : ∀ e ∈ t.preorder, e.IsExpr N := by
  refine h.of_children (P := fun t => ∀ e ∈ t.preorder, e.IsExpr N) fun t ht ih => ?_
  exact forall_mem_preorder.2 ⟨ht, ih⟩

theorem IsStatement.isExpr_of_mem_preorder (h : t.IsStatement N) {e : Tree} (he : e ∈ t.preorder)
    (hexpr : e.isExpression) : e.IsExpr N := by
  cases h with
  | ret h | expr h =>
    obtain rfl | he := List.mem_cons.1 he
    · cases hexpr
    · exact h.of_mem_preorder e he

theorem IsParam.eq_of_mem_preorder (h : t.IsParam) {e : Tree} (he : e ∈ t.preorder) : e = t := by
  cases h
  exact List.mem_singleton.1 he

theorem IsTopStatement.isExpr_or_isParam (h : t.IsTopStatement N) {e : Tree} (he : e ∈ t.preorder)
    (hexpr : e.isExpression) : e.IsExpr N ∨ e.IsParam := by
  rw [preorder_eq_cons] at he
  obtain rfl | he := List.mem_cons.1 he
  · match h with
    | .alias _ | .declare _ _ | .define _ _ _ | .expr _ _ => cases hexpr
  · obtain ⟨c, hc, hnode⟩ := List.mem_flatMap.1 he
    match h with
    | .alias _ => cases hc
    | .declare hparams _ => exact .inr ((hparams c hc).eq_of_mem_preorder hnode ▸ hparams c hc)
    | .define hparams _ hbody =>
      obtain hc | hc := List.mem_append.1 hc
      · exact .inr ((hparams c hc).eq_of_mem_preorder hnode ▸ hparams c hc)
      · exact .inl ((hbody c hc).isExpr_of_mem_preorder hnode hexpr)
    | .expr h _ =>
      cases List.mem_singleton.1 hc
      exact .inl (h.of_mem_preorder e hnode)

theorem Resolves.of_signs {d : String × Declaration} {s : Signature} (h : t.Resolves Γ)
    (hd : t.declaration? = some d) (hs : d.2.Signs s) :
    (∀ type ∈ s.params, Γ.Resolves type) ∧ Γ.Resolves s.result := by
  obtain ⟨hwritten, hchildren⟩ := resolves_iff.1 h
  have hparts : (∀ p ∈ d.2.params, p ∈ t.children) ∧ t.annotation? = some d.2.result := by
    cases t with
    | declare =>
      cases hd
      exact ⟨fun _ => id, rfl⟩
    | define =>
      cases hd
      exact ⟨fun _ => List.mem_append_left _, rfl⟩
    | _ => cases hd
  refine ⟨fun type htype => ?_, ?_⟩
  · have hmem : some type ∈ d.2.params.map Typing.boundType? := by
      rw [hs.params]
      exact List.mem_map_of_mem htype
    obtain ⟨p, hp, hbound⟩ := List.mem_map.1 hmem
    have htype : p.annotation? = some type := by
      cases p with
      | param | «alias» => exact hbound
      | _ => cases hbound
    exact (resolves_iff.1 (hchildren p (hparts.1 p hp))).1 type htype
  · rw [hs.result]
    exact hwritten _ hparts.2

end Tree

def Declaration.expand (Γ : Aliases) (d : Declaration) : Declaration where
  params := Tree.expandAll Γ d.params
  result := Γ.expansion d.result
  bodied := d.bodied

@[simp] theorem Declaration.bodied_expand (Γ : Aliases) (d : Declaration) :
    (d.expand Γ).bodied = d.bodied := rfl

namespace Typing

namespace State

def expand (Γ : Aliases) (st : State) : State where
  aliases := st.aliases.mapValues Γ.expansion
  signatures := st.signatures.mapValues (Signature.expand Γ)
  declarations := st.declarations.mapValues (Declaration.expand Γ)

variable (Γ : Aliases) (st : State)

theorem addDeclaration_expand (name : String) (d : Declaration) :
    (st.expand Γ).addDeclaration name (d.expand Γ) = (st.addDeclaration name d).expand Γ := by
  have hput : ((st.expand Γ).declarations).put name (d.expand Γ) =
      (st.declarations.put name d).mapValues (Declaration.expand Γ) :=
    Table.put_mapValues _ _ _ _
  have hget : (st.expand Γ).declarations.get? name =
      (st.declarations.get? name).map (Declaration.expand Γ) :=
    Table.get?_mapValues _ _ _
  rw [addDeclaration, addDeclaration, hget, hput]
  cases st.declarations.get? name with
  | none => rfl
  | some old =>
    simp only [Option.map_some, Declaration.bodied_expand, apply_ite (expand Γ)]
    rfl

theorem addStatement_expand (s : Tree) :
    (st.expand Γ).addStatement (s.expand Γ) = (st.addStatement s).expand Γ := by
  match s with
  | .alias name t place =>
    have hput : (st.expand Γ).aliases.put name (Γ.expansion t) =
        (st.aliases.put name t).mapValues Γ.expansion :=
      Table.put_mapValues _ _ _ _
    rw [Tree.expand, addStatement, hput]
    rfl
  | .declare name params result place =>
    exact addDeclaration_expand Γ st name ⟨params, result, false⟩
  | .define name params result body place =>
    exact addDeclaration_expand Γ st name ⟨params, result, true⟩
  | .number .. | .string .. | .name .. | .binary .. | .call .. | .member .. | .param .. | .ret ..
  | .expr .. | .program .. | .unruled .. | .stray .. => rfl

theorem foldl_addStatement_expand (ss : List Tree) :
    (Tree.expandAll Γ ss).foldl addStatement (st.expand Γ) =
      (ss.foldl addStatement st).expand Γ := by
  induction ss generalizing st with
  | nil => rfl
  | cons s ss ih => rw [Tree.expandAll, List.foldl_cons, addStatement_expand, ih, List.foldl_cons]

theorem paramTypes_expandAll (ps : List Tree) :
    paramTypes (Tree.expandAll Γ ps) = (paramTypes ps).map (List.map Γ.expansion) := by
  induction ps with
  | nil => rfl
  | cons p ps ih =>
    have htype : boundType? (p.expand Γ) = (boundType? p).map Γ.expansion := by cases p <;> rfl
    rw [Tree.expandAll, paramTypes, paramTypes, htype]
    cases boundType? p with
    | none => rfl
    | some t =>
      rw [Option.map_some, ih]
      cases paramTypes ps <;> rfl

theorem addSignatures_expand (ds : Table Declaration) :
    (st.expand Γ).addSignatures (ds.mapValues (Declaration.expand Γ)) =
      ((st.addSignatures ds).1.expand Γ, (st.addSignatures ds).2) := by
  induction ds generalizing st with
  | nil => rfl
  | cons d ds ih =>
    rw [Table.mapValues, List.map_cons, addSignatures, addSignatures]
    dsimp only [Declaration.expand]
    rw [paramTypes_expandAll]
    cases paramTypes d.2.params with
    | error e => rfl
    | ok ts =>
      have hput : (st.expand Γ).signatures.put d.1 (Signature.expand Γ ⟨ts, d.2.result, false⟩) =
          (st.signatures.put d.1 ⟨ts, d.2.result, false⟩).mapValues (Signature.expand Γ) :=
        Table.put_mapValues _ _ _ _
      rw [← ih]
      exact congrArg (fun signatures => addSignatures { st.expand Γ with signatures }
        (Table.mapValues (Declaration.expand Γ) ds)) hput

theorem collect_expandAll (ss : List Tree) :
    ({} : State).collect (Tree.expandAll Γ ss) =
      ((({} : State).collect ss).1.expand Γ, (({} : State).collect ss).2) := by
  have hstart : ({} : State) = ({} : State).expand Γ := rfl
  rw [collect, hstart, foldl_addStatement_expand]
  exact addSignatures_expand Γ _ _

end State

end Typing

end StructLang
