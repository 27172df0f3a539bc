import StructLang.Proofs.Script.Declarations
import StructLang.Proofs.Tree.Walk
import StructLang.Proofs.Typing.Soundness

namespace StructLang

open Typing

namespace Declaration

def better (new old : Declaration) : Bool := new.bodied && !old.bodied

structure Signs (d : Declaration) (s : Signature) : Prop where
  params : d.params.map boundType? = s.params.map some
  result : s.result = d.result
  variadic : s.variadic = false

end Declaration

namespace Tree

variable {N : String → Prop}

theorem IsExpr.of_children {P : Tree → Prop}
    (step : ∀ t, t.IsExpr N → (∀ s ∈ t.children, P s) → P t) {t : Tree} (h : t.IsExpr N) : P t := by
  induction h with
  | number hn => exact step _ (.number hn) nofun
  | string => exact step _ .string nofun
  | name => exact step _ .name nofun
  | binary hl hr ihl ihr => exact step _ (.binary hl hr) (by simp [children, ihl, ihr])
  | call hf hargs ihf ihargs =>
    exact step _ (.call hf hargs) (List.forall_mem_cons.2 ⟨ihf, ihargs⟩)
  | member ho ih => exact step _ (.member ho) (by simp [children, ih])

def returned? : Tree → Option Tree
  | .ret e _ => some e
  | _ => none

/-- The expression of a statement that the check infers a type for: of a body, the first that is
returned. -/
def checked? : Tree → Option Tree
  | .expr e _ _ => some e
  | .define _ _ _ body _ => body.findSome? returned?
  | _ => none

def checkedNodes (t : Tree) : List Tree := (t.statements.filterMap checked?).flatMap preorder

theorem isExpr_of_returned? {ss : List Tree} {e : Tree} (hss : ∀ s ∈ ss, s.IsStatement N)
    (h : ss.findSome? returned? = some e) : e.IsExpr N := by
  obtain ⟨s, hs, he⟩ := List.exists_of_findSome?_eq_some h
  cases hss s hs with
  | ret hexpr =>
    cases he
    exact hexpr
  | expr => cases he

theorem IsTopStatement.isExpr_of_checked? {t e : Tree} (h : t.IsTopStatement N)
    (he : t.checked? = some e) : e.IsExpr N := by
  match h with
  | .alias _ | .declare _ _ => cases he
  | .expr hexpr _ =>
    cases he
    exact hexpr
  | .define _ _ hbody => exact isExpr_of_returned? hbody he

end Tree

namespace Typing

variable {N : String → Prop} {st st' : State} {sc : Scope} {t : Tree}

namespace State

theorem addDeclaration_eq (st : State) (name : String) (d : Declaration) :
    st.addDeclaration name d =
      { st with declarations := st.declarations.keep Declaration.better (name, d) } := by
  rw [addDeclaration, Table.keep]
  cases st.declarations.get? name with
  | none => rfl
  | some old => cases h : d.bodied && !old.bodied <;> simp [Declaration.better, h]

theorem foldl_addStatement_declarations (st : State) (ss : List Tree) :
    (ss.foldl addStatement st).declarations =
        (ss.filterMap Tree.declaration?).foldl (Table.keep Declaration.better) st.declarations ∧
      (ss.foldl addStatement st).signatures = st.signatures := by
  induction ss generalizing st with
  | nil => exact ⟨rfl, rfl⟩
  | cons s ss ih =>
    rw [List.foldl_cons]
    obtain ⟨hdeclarations, hsignatures⟩ := ih (st.addStatement s)
    rw [hdeclarations, hsignatures]
    match s with
    | .declare name params result _ =>
      rw [addStatement, addDeclaration_eq]
      exact ⟨rfl, rfl⟩
    | .define name params result _ _ =>
      rw [addStatement, addDeclaration_eq]
      exact ⟨rfl, rfl⟩
    | .number .. | .string .. | .name .. | .binary .. | .call .. | .member .. | .param ..
    | .alias .. | .ret .. | .expr .. | .program .. | .unruled .. | .stray .. => exact ⟨rfl, rfl⟩

theorem map_boundType?_of_paramTypes {ps : List Tree} {ts : List Ty} (h : paramTypes ps = .ok ts) :
    ps.map boundType? = ts.map some := by
  induction ps generalizing ts with
  | nil =>
    cases h
    rfl
  | cons p ps ih =>
    rw [paramTypes] at h
    split at h
    · rename_i ty hty
      obtain ⟨ts, hts, h⟩ := bind_eq_ok.1 h
      cases h
      rw [List.map_cons, List.map_cons, hty, ih hts]
    · cases h

theorem addSignatures_related {ds : Table Declaration}
    (hnodup : (st.signatures.names ++ ds.names).Nodup)
    (h : st.addSignatures ds = (st', .ok ())) :
    ∃ ss, st'.signatures = st.signatures ++ ss ∧
      List.Forall₂ (Table.Related Declaration.Signs) ds ss := by
  induction ds generalizing st with
  | nil =>
    cases h
    exact ⟨[], by simp, .nil⟩
  | cons e ds ih =>
    rw [addSignatures] at h
    split at h
    · rename_i params hparams
      have hfresh : e.1 ∉ st.signatures.names := by
        intro hmem
        exact (List.nodup_append.1 hnodup).2.2 _ hmem _ List.mem_cons_self rfl
      rw [Table.put_of_notMem hfresh] at h
      have hnames :
          (Table.names (st.signatures ++ [(e.1, (⟨params, e.2.result, false⟩ : Signature))]) ++
            Table.names ds).Nodup := by
        simpa [Table.names] using hnodup
      obtain ⟨ss, hss, hrelated⟩ := ih hnames h
      refine ⟨(e.1, ⟨params, e.2.result, false⟩) :: ss, by simpa using hss,
        .cons ⟨rfl, ?_⟩ hrelated⟩
      exact ⟨map_boundType?_of_paramTypes hparams, rfl, rfl⟩
    · cases h

theorem check_eq_ok (h : st.check t = (st', .ok ())) :
    st.collect t.statements = (st', .ok ()) ∧ ∃ r, visit st'.scope t = .ok r := by
  rw [check] at h
  split at h
  · cases h
  · rename_i st₁ hcollect
    obtain ⟨rfl, hvisit⟩ := Prod.mk.inj h
    obtain ⟨r, hr, _⟩ := bind_eq_ok.1 hvisit
    exact ⟨hcollect, r, hr⟩

/-- The signatures are those of the declarations that count, in the same order. -/
theorem signatures_of_collect {ss : List Tree} (h : ({} : State).collect ss = (st, .ok ())) :
    List.Forall₂ (Table.Related Declaration.Signs)
      ((ss.filterMap Tree.declaration?).foldl (Table.keep Declaration.better) [])
      st.signatures := by
  obtain ⟨hdeclarations, hsignatures⟩ := foldl_addStatement_declarations {} ss
  rw [collect] at h
  obtain ⟨sigs, hsigs, hrelated⟩ := addSignatures_related (by
    rw [hsignatures, hdeclarations, Table.names_foldl_keep]
    exact nodup_eraseDups _) h
  rw [hsignatures, List.nil_append] at hsigs
  rw [hsigs]
  rwa [hdeclarations] at hrelated

theorem signatures_related (h : ({} : State).check t = (st, .ok ())) :
    List.Forall₂ (Table.Related Declaration.Signs)
      (t.declarations.foldl (Table.keep Declaration.better) []) st.signatures :=
  signatures_of_collect (check_eq_ok h).1

end State

def Passes (sc : Scope) (t : Tree) : Prop := ∃ r, visit sc t = .ok r

theorem passes_of_typed {e : Tree} {T : Ty} (h : typed e (visit sc e) = .ok T) : Passes sc e :=
  ⟨_, typed_eq_ok.1 h⟩

theorem scope_after (hlocals : sc.locals = []) (s : Tree) :
    (if closesScope s then { sc with locals := [] } else sc) = sc := by
  rw [← hlocals]
  exact ite_self sc

theorem passes_of_visitAll (hlocals : sc.locals = []) {ss : List Tree} {rs : List (Option Ty)}
    (h : visitAll sc ss = .ok rs) : ∀ s ∈ ss, Passes sc s := by
  induction ss generalizing rs with
  | nil => exact nofun
  | cons s ss ih =>
    rw [visitAll, scope_after hlocals] at h
    obtain ⟨r, hr, h⟩ := bind_eq_ok.1 h
    obtain ⟨rs, hrs, _⟩ := bind_eq_ok.1 h
    exact List.forall_mem_cons.2 ⟨⟨r, hr⟩, ih hrs⟩

theorem passes_of_inferAll {ts : List Tree} (h : inferAll sc ts = .ok ()) :
    ∀ t ∈ ts, Passes sc t := by
  induction ts with
  | nil => exact nofun
  | cons t ts ih =>
    obtain ⟨T, hT, h⟩ := bind_eq_ok.1 h
    exact List.forall_mem_cons.2 ⟨passes_of_typed hT, ih h⟩

theorem passes_of_checkArguments {name : String} {s : Signature} {loc : Option Span} {index : Nat}
    {ts : List Tree} (h : checkArguments sc name s loc index ts = .ok ()) :
    ∀ t ∈ ts, Passes sc t := by
  induction ts generalizing index with
  | nil => exact nofun
  | cons t ts ih =>
    rw [checkArguments] at h
    obtain ⟨_, _, h⟩ := bind_eq_ok.1 h
    obtain ⟨T, hT, h⟩ := bind_eq_ok.1 h
    obtain ⟨b, _, h⟩ := bind_eq_ok.1 h
    cases b with
    | false => cases h
    | true => exact List.forall_mem_cons.2 ⟨passes_of_typed hT, ih h⟩

theorem passes_name (sc : Scope) (n : String) (place : Option Span) : Passes sc (.name n place) :=
  ⟨_, by rw [visit]⟩

theorem Passes.call_name {n : String} {args : List Tree} {place place' : Option Span}
    (h : Passes sc (.call (.name n place') args place)) :
    ∃ s, sc.signature n place = .ok s ∧ (s.variadic = false → args.length = s.arity) ∧
      ∀ a ∈ args, Passes sc a := by
  obtain ⟨r, h⟩ := h
  rw [visit] at h
  obtain ⟨s, hs, h⟩ := bind_eq_ok.1 h
  split at h
  · cases h
  · rename_i harity
    obtain ⟨_, hargs, _⟩ := bind_eq_ok.1 h
    exact ⟨s, hs, by simpa using harity, passes_of_checkArguments hargs⟩

theorem Passes.children {t : Tree} (ht : t.IsExpr N) (h : Passes sc t) :
    ∀ s ∈ t.children, Passes sc s := by
  cases ht with
  | number | string | name => exact List.forall_mem_nil _
  | binary =>
    obtain ⟨r, h⟩ := h
    rw [visit] at h
    obtain ⟨_, hl, h⟩ := bind_eq_ok.1 h
    obtain ⟨_, hr, _⟩ := bind_eq_ok.1 h
    exact List.forall_mem_cons.2 ⟨passes_of_typed hl,
      List.forall_mem_cons.2 ⟨passes_of_typed hr, List.forall_mem_nil _⟩⟩
  | member =>
    obtain ⟨r, h⟩ := h
    rw [visit] at h
    obtain ⟨_, ho, _⟩ := bind_eq_ok.1 h
    exact List.forall_mem_cons.2 ⟨passes_of_typed ho, List.forall_mem_nil _⟩
  | @call f args place hf _ =>
    cases hname : f.calleeName? with
    | some n =>
      cases hf with
      | name =>
        obtain ⟨_, _, _, hargs⟩ := h.call_name
        exact List.forall_mem_cons.2 ⟨passes_name sc _ _, hargs⟩
      | _ => cases hname
    | none =>
      obtain ⟨r, h⟩ := h
      simp only [visit, hname] at h
      obtain ⟨_, hcallee, h⟩ := bind_eq_ok.1 h
      obtain ⟨_, hargs, _⟩ := bind_eq_ok.1 h
      exact List.forall_mem_cons.2 ⟨passes_of_typed hcallee, passes_of_inferAll hargs⟩

theorem Passes.of_mem_preorder {t : Tree} (ht : t.IsExpr N) (h : Passes sc t) :
    ∀ s ∈ t.preorder, Passes sc s := by
  refine ht.of_children (P := fun t => Passes sc t → ∀ s ∈ t.preorder, Passes sc s) ?_ h
  intro t ht ih h
  rw [Tree.preorder_eq_cons, List.forall_mem_cons, List.forall_mem_flatMap]
  exact ⟨h, fun s hs => ih s hs (h.children ht s hs)⟩

theorem Passes.hasStatements {t : Tree} (h : Passes sc t) : t.HasStatements := by
  match t, h with
  | .define name params result body place, ⟨r, h⟩ =>
    rw [visit] at h
    obtain ⟨_, _, h⟩ := bind_eq_ok.1 h
    obtain ⟨_, _, h⟩ := bind_eq_ok.1 h
    rintro rfl
    split at h
    · cases h
    · cases h
  | .number .., _ | .string .., _ | .name .., _ | .binary .., _ | .call .., _ | .member .., _
  | .param .., _ | .alias .., _ | .ret .., _ | .expr .., _ | .declare .., _ | .program .., _
  | .unruled .., _ | .stray .., _ => trivial

theorem firstReturn_of_returned? (sc : Scope) {ss : List Tree} {e : Tree}
    (h : ss.findSome? Tree.returned? = some e) :
    ∃ place, firstReturn sc ss = some (place, typed e (visit sc e)) := by
  induction ss with
  | nil => cases h
  | cons s ss ih =>
    cases s with
    | ret e' place =>
      cases h
      exact ⟨place, rfl⟩
    | _ => exact ih h

theorem Passes.of_checked? {t e : Tree} (h : Passes sc t) (he : t.checked? = some e) :
    ∃ locals, Passes { sc with locals } e := by
  cases t with
  | expr =>
    cases he
    obtain ⟨r, h⟩ := h
    unfold visit at h
    obtain ⟨T, hT, _⟩ := bind_eq_ok.1 h
    exact ⟨sc.locals, passes_of_typed hT⟩
  | define =>
    obtain ⟨r, h⟩ := h
    rw [visit] at h
    obtain ⟨types, _, h⟩ := bind_eq_ok.1 h
    obtain ⟨T, _, h⟩ := bind_eq_ok.1 h
    split at h
    · cases h
    · split at h
      · cases h
      · obtain ⟨locals, _, h⟩ := bind_eq_ok.1 h
        obtain ⟨p, hreturn⟩ := firstReturn_of_returned? { sc with locals } he
        rw [hreturn] at h
        obtain ⟨found, hfound, _⟩ := bind_eq_ok.1 h
        exact ⟨locals, passes_of_typed hfound⟩
  | _ => cases he

namespace State

theorem passes_of_check (ht : t.IsProgram N) (h : ({} : State).check t = (st, .ok ())) :
    ∀ s ∈ t.statements, Passes st.scope s := by
  obtain ⟨_, r, hr⟩ := check_eq_ok h
  cases ht with
  | program hss =>
    rw [visit] at hr
    obtain ⟨_, _, hr⟩ := bind_eq_ok.1 hr
    obtain ⟨rs, hrs, _⟩ := bind_eq_ok.1 hr
    exact passes_of_visitAll rfl hrs

theorem signature_of_mem_checkedNodes (ht : t.IsProgram N)
    (h : ({} : State).check t = (st, .ok ())) {n : String} {args : List Tree}
    {place place' : Option Span} (hcall : .call (.name n place') args place ∈ t.checkedNodes) :
    ∃ s, st.scope.signature n place = .ok s ∧ (s.variadic = false → args.length = s.arity) := by
  obtain ⟨e, he, hnode⟩ := List.mem_flatMap.1 hcall
  obtain ⟨s, hs, hchecked⟩ := List.mem_filterMap.1 he
  obtain ⟨locals, hpasses⟩ := (passes_of_check ht h s hs).of_checked? hchecked
  have hexpr : e.IsExpr N := by
    cases ht with
    | program hss => exact (hss s hs).isExpr_of_checked? hchecked
  obtain ⟨sig, hsig, harity, _⟩ := (hpasses.of_mem_preorder hexpr _ hnode).call_name
  exact ⟨sig, hsig, harity⟩

theorem arity_of_mem_checkedNodes (ht : t.IsProgram N) (h : ({} : State).check t = (st, .ok ()))
    {n : String} {args : List Tree} {place place' : Option Span}
    (hcall : .call (.name n place') args place ∈ t.checkedNodes) (hn : ¬Library.reserved n) :
    ∃ s, st.signatures.get? n = some s ∧ args.length = s.params.length := by
  obtain ⟨sig, hsig, harity⟩ := signature_of_mem_checkedNodes ht h hcall
  rw [Scope.signature, Library.find?_eq_none_iff.2 hn] at hsig
  obtain ⟨_, hnone⟩ | ⟨d, sig', _, hget, hsigns⟩ := Table.get?_related (signatures_related h) n
  · simp [scope, hnone] at hsig
  · have hsome : sig' = sig := by simpa [scope, hget] using hsig
    rw [hsome] at hget hsigns
    exact ⟨sig, hget, harity hsigns.variadic⟩

end State

end Typing

end StructLang
