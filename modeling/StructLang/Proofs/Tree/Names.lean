import StructLang.Proofs.Token.Lexes
import StructLang.Proofs.Tree.Shape
import StructLang.Proofs.Tree.Walk

namespace StructLang

namespace Tree

variable {M : String → Prop} {t : Tree}

def reference? : Tree → Option String
  | .name n _ | .member _ n _ | .declare n _ _ _ | .define n _ _ _ _ => some n
  | _ => none

def References (M : String → Prop) (t : Tree) : Prop := ∀ s ∈ t.preorder, ∀ n ∈ s.reference?, M n

theorem references_iff :
    t.References M ↔ (∀ n ∈ t.reference?, M n) ∧ ∀ s ∈ t.children, s.References M := by
  rw [References, preorder_eq_cons, List.forall_mem_cons, List.forall_mem_flatMap]
  rfl

theorem references_iff_children (h : t.reference? = none) :
    t.References M ↔ ∀ s ∈ t.children, s.References M := by
  simp [references_iff (t := t), h]

theorem references_name {n : String} {place : Option Span} (h : M n) :
    (Tree.name n place).References M := by
  rw [references_iff]
  simpa [children, reference?] using h

theorem sizeOf_lt_of_mem_children {s : Tree} (h : s ∈ t.children) : sizeOf s < sizeOf t := by
  have hlist : ∀ {ts : List Tree}, s ∈ ts → sizeOf s < sizeOf ts := List.sizeOf_lt_of_mem
  cases t with
  | binary op l r place =>
    simp only [children, List.mem_cons, List.not_mem_nil, or_false] at h
    obtain rfl | rfl := h <;> simp only [binary.sizeOf_spec] <;> omega
  | call f args place =>
    simp only [call.sizeOf_spec]
    obtain rfl | hmem := List.mem_cons.1 h
    · omega
    · have hlt := hlist hmem
      omega
  | member o p place | ret o place | expr o ascribed place =>
    obtain rfl := List.mem_singleton.1 h
    simp only [member.sizeOf_spec, ret.sizeOf_spec, expr.sizeOf_spec]
    omega
  | declare n ps result place | program ps file place =>
    have hlt : sizeOf s < sizeOf ps := hlist h
    simp only [declare.sizeOf_spec, program.sizeOf_spec]
    omega
  | define n params result body place =>
    simp only [define.sizeOf_spec]
    obtain hmem | hmem := List.mem_append.1 h
    · have hlt := hlist hmem
      omega
    · have hlt := hlist hmem
      omega
  | _ => cases h

theorem References.of_mem_preorder {s t : Tree} (h : t.References M) (hs : s ∈ t.preorder) :
    s.References M := by
  rw [preorder_eq_cons, List.mem_cons, List.mem_flatMap] at hs
  obtain rfl | ⟨c, hc, hs⟩ := hs
  · exact h
  · exact ((references_iff.1 h).2 c hc).of_mem_preorder hs
termination_by sizeOf t
decreasing_by exact sizeOf_lt_of_mem_children hc

theorem children_unplaced (t : Tree) : t.unplaced.children = t.children.map unplaced := by
  cases t <;> simp [unplaced, children, unplacedAll_eq_map]

theorem reference?_unplaced (t : Tree) : t.unplaced.reference? = t.reference? := by
  cases t <;> rfl

theorem References.of_unplaced {t : Tree} (h : t.unplaced.References M) : t.References M := by
  rw [references_iff, reference?_unplaced, children_unplaced, List.forall_mem_map] at h
  rw [references_iff]
  exact ⟨h.1, fun s hs => (h.2 s hs).of_unplaced⟩
termination_by sizeOf t
decreasing_by exact sizeOf_lt_of_mem_children hs

theorem IsParam.references (h : t.IsParam) : t.References M := by
  cases h
  rw [references_iff_children rfl]
  simp [children]

end Tree

namespace Grammar

variable {M : String → Prop}

mutual

theorem Expr.references {n : Nat} {ts : List Token} {e : Tree} (h : Expr n ts e)
    (hM : ∀ t ∈ ts, t.isName → M t.text) : e.References M := by
  match h with
  | .operand h => exact h.references hM
  | .binary _ hl _ hr =>
    rw [Tree.references_iff_children rfl]
    simpa [Tree.children] using ⟨hl.references fun t ht => hM t (by simp [ht]),
      hr.references fun t ht => hM t (by simp [ht])⟩

theorem Operand.references {ts : List Token} {e : Tree} (h : Operand ts e)
    (hM : ∀ t ∈ ts, t.isName → M t.text) : e.References M := by
  match h with
  | .primary h => exact h.references hM
  | .member h _ hname =>
    rw [Tree.references_iff]
    simpa [Tree.children, Tree.reference?] using ⟨hM _ (by simp) hname,
      h.references fun t ht => hM t (by simp [ht])⟩
  | .call h _ hargs _ =>
    rw [Tree.references_iff_children rfl]
    exact List.forall_mem_cons.2 ⟨h.references fun t ht => hM t (by simp [ht]),
      hargs.references fun t ht => hM t (by simp [ht])⟩

theorem Primary.references {ts : List Token} {e : Tree} (h : Primary ts e)
    (hM : ∀ t ∈ ts, t.isName → M t.text) : e.References M := by
  match h with
  | .number _ | .string _ =>
    rw [Tree.references_iff_children rfl]
    simp [Tree.children]
  | .name hname _ => exact Tree.references_name (hM _ (by simp) hname)
  | .parens _ h _ => exact h.references fun t ht => hM t (by simp [ht])

theorem Arguments.references {ts : List Token} {es : List Tree} (h : Arguments ts es)
    (hM : ∀ t ∈ ts, t.isName → M t.text) : ∀ e ∈ es, e.References M := by
  match h with
  | .none => simp
  | .some h => exact h.references hM

theorem Items.references {ts : List Token} {es : List Tree} (h : Items ts es)
    (hM : ∀ t ∈ ts, t.isName → M t.text) : ∀ e ∈ es, e.References M := by
  match h with
  | .one h => simpa using h.references hM
  | .cons h _ hs =>
    rw [List.forall_mem_cons]
    exact ⟨h.references fun t ht => hM t (by simp [ht]),
      hs.references fun t ht => hM t (by simp [ht])⟩

end

theorem Statement.references {ts : List Token} {s : Tree} (h : Statement ts s)
    (hM : ∀ t ∈ ts, t.isName → M t.text) : s.References M := by
  rw [Tree.references_iff_children (by cases h <;> rfl)]
  cases h with
  | ret _ h _ => simpa [Tree.children] using h.references fun t ht => hM t (by simp [ht])
  | expr h _ => simpa [Tree.children] using h.references fun t ht => hM t (by simp [ht])

theorem Body.references {ts : List Token} {ss : List Tree} (h : Body ts ss)
    (hM : ∀ t ∈ ts, t.isName → M t.text) : ∀ s ∈ ss, s.References M := by
  induction h with
  | nil => simp
  | cons h _ ih =>
    rw [List.forall_mem_cons]
    exact ⟨h.references fun t ht => hM t (by simp [ht]), ih fun t ht => hM t (by simp [ht])⟩

theorem Header.reference {ts : List Token} {n : String} {ps : List Tree} {ty : Ty}
    (h : Header ts n ps ty) (hM : ∀ t ∈ ts, t.isName → M t.text) : M n := by
  cases h with
  | mk hx _ _ _ _ => exact hM _ (by simp) hx

theorem TopStatement.references {ts : List Token} {s : Tree} (h : TopStatement ts s)
    (hM : ∀ t ∈ ts, t.isName → M t.text) : s.References M := by
  match h with
  | .alias .. =>
    rw [Tree.references_iff_children rfl]
    simp [Tree.children]
  | .declare h _ =>
    rw [Tree.references_iff]
    refine ⟨?_, fun p hp => (h.shape.1 p hp).references⟩
    rintro _ ⟨⟩
    exact h.reference fun t ht => hM t (by simp [ht])
  | .define h _ _ hbody _ =>
    rw [Tree.references_iff]
    constructor
    · rintro _ ⟨⟩
      exact h.reference fun t ht => hM t (by simp [ht])
    · exact List.forall_mem_append.2 ⟨fun p hp => (h.shape.1 p hp).references,
        hbody.references fun t ht => hM t (by simp [ht])⟩
  | .call hname _ hargs _ _ _ =>
    rw [Tree.references_iff_children rfl]
    refine List.forall_mem_singleton.2 ((Tree.references_iff_children rfl).2 ?_)
    exact List.forall_mem_cons.2 ⟨Tree.references_name (hM _ (by simp) hname),
      hargs.references fun t ht => hM t (by simp [ht])⟩

theorem Program.references {ts : List Token} {ss : List Tree} (h : Program ts ss)
    (hM : ∀ t ∈ ts, t.isName → M t.text) : ∀ s ∈ ss, s.References M := by
  induction h with
  | nil => simp
  | semicolon _ _ ih => exact ih fun t ht => hM t (by simp [ht])
  | cons h _ ih =>
    rw [List.forall_mem_cons]
    exact ⟨h.references fun t ht => hM t (by simp [ht]), ih fun t ht => hM t (by simp [ht])⟩

end Grammar

namespace Tree

theorem references_of_scan {file source : String} {ts : List Token} {t : Tree}
    (hscan : Token.scan file source = .ok ts) (hparse : parse file ts = .ok t) :
    t.References (Token.IsName ·.toList) := by
  obtain ⟨ss, hss⟩ := exists_unplaced_of_parse hparse
  have hprogram := parse_eq_ok_iff.1 ⟨t, hparse, hss⟩
  refine .of_unplaced ?_
  rw [hss, references_iff_children rfl]
  exact hprogram.references fun t ht =>
    Token.isName_of_scan hscan t ((List.takeWhile_sublist _).subset ht)

end Tree

end StructLang
