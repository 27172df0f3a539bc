import StructLang.Proofs.Tree.ParseComplete

namespace StructLang

namespace Ty

mutual

def isNative : Ty → Bool
  | .prim _ => true
  | .array e => e.isNative
  | .union ms => allNative ms
  | .alias _ => true
  | .foreign => false

def allNative : List Ty → Bool
  | [] => true
  | t :: ts => t.isNative && allNative ts

end

theorem allNative_map {α : Type} {f : α → Ty} (h : ∀ a, (f a).isNative) (as : List α) :
    allNative (as.map f) := by
  induction as with
  | nil => rfl
  | cons a as ih => simp [allNative, h a, ih]

theorem isNative_ofMember (s : List Char) : (ofMember s).isNative := by
  simp only [ofMember]
  split <;> rfl

theorem isNative_ofLiteral (text : String) : (ofLiteral text).isNative := by
  have hall := allNative_map isNative_ofMember (Text.splitAt '|' text.toList)
  rw [ofLiteral]
  split
  · rename_i t ht
    rw [ht] at hall
    simpa [allNative] using hall
  · exact hall

theorem isNative_ofText (text : String) : (ofText text).isNative := by
  rw [ofText]
  split
  · exact isNative_ofLiteral text
  · rfl

end Ty

namespace Tree

inductive IsExpr (N : String → Prop) : Tree → Prop
  | number : N text → IsExpr N (.number text place)
  | string : IsExpr N (.string text place)
  | name : IsExpr N (.name n place)
  | binary : IsExpr N l → IsExpr N r → IsExpr N (.binary op l r place)
  | call : IsExpr N f → (∀ a ∈ args, IsExpr N a) → IsExpr N (.call f args place)
  | member : IsExpr N o → IsExpr N (.member o property place)

inductive IsParam : Tree → Prop
  | param : t.isNative → IsParam (.param n t place)

inductive IsStatement (N : String → Prop) : Tree → Prop
  | ret : IsExpr N e → IsStatement N (.ret e place)
  | expr : IsExpr N e → IsStatement N (.expr e none place)

inductive IsTopStatement (N : String → Prop) : Tree → Prop
  | alias : t.isNative → IsTopStatement N (.alias n t place)
  | declare : (∀ p ∈ params, IsParam p) → result.isNative →
      IsTopStatement N (.declare n params result place)
  | define : (∀ p ∈ params, IsParam p) → result.isNative → (∀ s ∈ body, IsStatement N s) →
      IsTopStatement N (.define n params result body place)
  | expr : IsExpr N e → (∀ t ∈ ascribed, t.isNative) → IsTopStatement N (.expr e ascribed place)

inductive IsProgram (N : String → Prop) : Tree → Prop
  | program : (∀ s ∈ ss, IsTopStatement N s) → IsProgram N (.program ss file place)

end Tree

namespace Grammar

variable {N : String → Prop}

mutual

theorem Expr.isExpr {n : Nat} {ts : List Token} {e : Tree} (h : Expr n ts e)
    (hN : ∀ t ∈ ts, t.kind = .number → N t.text) : e.IsExpr N := by
  match h with
  | .operand h => exact h.isExpr hN
  | .binary _ hl _ hr =>
    exact .binary (hl.isExpr fun t ht => hN t (by simp [ht]))
      (hr.isExpr fun t ht => hN t (by simp [ht]))

theorem Operand.isExpr {ts : List Token} {e : Tree} (h : Operand ts e)
    (hN : ∀ t ∈ ts, t.kind = .number → N t.text) : e.IsExpr N := by
  match h with
  | .primary h => exact h.isExpr hN
  | .member h _ _ => exact .member (h.isExpr fun t ht => hN t (by simp [ht]))
  | .call h _ hargs _ =>
    exact .call (h.isExpr fun t ht => hN t (by simp [ht]))
      (hargs.isExpr fun t ht => hN t (by simp [ht]))

theorem Primary.isExpr {ts : List Token} {e : Tree} (h : Primary ts e)
    (hN : ∀ t ∈ ts, t.kind = .number → N t.text) : e.IsExpr N := by
  match h with
  | .number h => exact .number (hN _ (by simp) h)
  | .string _ => exact .string
  | .name _ _ => exact .name
  | .parens _ h _ => exact h.isExpr fun t ht => hN t (by simp [ht])

theorem Arguments.isExpr {ts : List Token} {es : List Tree} (h : Arguments ts es)
    (hN : ∀ t ∈ ts, t.kind = .number → N t.text) : ∀ e ∈ es, e.IsExpr N := by
  match h with
  | .none => simp
  | .some h => exact h.isExpr hN

theorem Items.isExpr {ts : List Token} {es : List Tree} (h : Items ts es)
    (hN : ∀ t ∈ ts, t.kind = .number → N t.text) : ∀ e ∈ es, e.IsExpr N := by
  match h with
  | .one h => simpa using h.isExpr hN
  | .cons h _ hs =>
    rw [List.forall_mem_cons]
    exact ⟨h.isExpr fun t ht => hN t (by simp [ht]), hs.isExpr fun t ht => hN t (by simp [ht])⟩

end

theorem Statement.isStatement {ts : List Token} {s : Tree} (h : Statement ts s)
    (hN : ∀ t ∈ ts, t.kind = .number → N t.text) : s.IsStatement N := by
  cases h with
  | ret _ h _ => exact .ret (h.isExpr fun t ht => hN t (by simp [ht]))
  | expr h _ => exact .expr (h.isExpr fun t ht => hN t (by simp [ht]))

theorem Body.isStatement {ts : List Token} {ss : List Tree} (h : Body ts ss)
    (hN : ∀ t ∈ ts, t.kind = .number → N t.text) : ∀ s ∈ ss, s.IsStatement N := by
  induction h with
  | nil => simp
  | cons h _ ih =>
    rw [List.forall_mem_cons]
    exact ⟨h.isStatement fun t ht => hN t (by simp [ht]), ih fun t ht => hN t (by simp [ht])⟩

theorem TypeName.isNative {t : Token} {ty : Ty} (h : TypeName t ty) : ty.isNative := by
  match h with
  | .literal _ => exact Ty.isNative_ofLiteral _
  | .alias _ => rfl

theorem Params.isParam {ts : List Token} {ps : List Tree} (h : Params ts ps) :
    ∀ p ∈ ps, p.IsParam := by
  have hparam : ∀ {ts p}, Param ts p → p.IsParam := fun | .mk _ _ h => .param h.isNative
  induction h with
  | one h => simpa using hparam h
  | cons h _ _ ih => exact List.forall_mem_cons.2 ⟨hparam h, ih⟩

theorem Header.shape {ts : List Token} {n : String} {ps : List Tree} {ty : Ty}
    (h : Header ts n ps ty) : (∀ p ∈ ps, p.IsParam) ∧ ty.isNative := by
  cases h with
  | mk _ _ h _ _ =>
    refine ⟨?_, Ty.isNative_ofText _⟩
    cases h with
    | none => simp
    | some h => exact h.isParam

theorem TopStatement.isTopStatement {ts : List Token} {s : Tree} (h : TopStatement ts s)
    (hN : ∀ t ∈ ts, t.kind = .number → N t.text) : s.IsTopStatement N := by
  match h with
  | .alias _ _ h _ => exact .alias h.isNative
  | .declare h _ => exact .declare h.shape.1 h.shape.2
  | .define h _ _ hbody _ =>
    exact .define h.shape.1 h.shape.2 (hbody.isStatement fun t ht => hN t (by simp [ht]))
  | .call _ _ hargs _ hascribed _ =>
    refine .expr (.call .name (hargs.isExpr fun t ht => hN t (by simp [ht]))) ?_
    cases hascribed with
    | none => simp
    | some _ => simpa using Ty.isNative_ofText _

theorem Program.isTopStatement {ts : List Token} {ss : List Tree} (h : Program ts ss)
    (hN : ∀ t ∈ ts, t.kind = .number → N t.text) : ∀ s ∈ ss, s.IsTopStatement N := by
  induction h with
  | nil => simp
  | semicolon _ _ ih => exact ih fun t ht => hN t (by simp [ht])
  | cons h _ ih =>
    rw [List.forall_mem_cons]
    exact ⟨h.isTopStatement fun t ht => hN t (by simp [ht]), ih fun t ht => hN t (by simp [ht])⟩

end Grammar

namespace Tree

variable {N : String → Prop}

theorem unplacedAll_eq_map (ts : List Tree) : unplacedAll ts = ts.map unplaced := by
  induction ts with
  | nil => rfl
  | cons t ts ih => simp [unplacedAll, ih]

theorem forall_mem_unplacedAll {P : Tree → Prop} {ts : List Tree} :
    (∀ t ∈ unplacedAll ts, P t) ↔ ∀ t ∈ ts, P t.unplaced := by
  simp [unplacedAll_eq_map]

theorem IsExpr.of_unplaced {t : Tree} (h : t.unplaced.IsExpr N) : t.IsExpr N := by
  cases t with
  | number =>
    cases h with
    | number h => exact .number h
  | string => exact .string
  | name => exact .name
  | binary =>
    cases h with
    | binary hl hr => exact .binary hl.of_unplaced hr.of_unplaced
  | call =>
    cases h with
    | call hf hargs =>
      exact .call hf.of_unplaced fun a ha => (forall_mem_unplacedAll.1 hargs a ha).of_unplaced
  | member =>
    cases h with
    | member h => exact .member h.of_unplaced
  | _ => cases h

theorem IsParam.of_unplaced {t : Tree} (h : t.unplaced.IsParam) : t.IsParam := by
  cases t with
  | param =>
    cases h with
    | param h => exact .param h
  | _ => cases h

theorem IsStatement.of_unplaced {t : Tree} (h : t.unplaced.IsStatement N) : t.IsStatement N := by
  cases t with
  | ret =>
    cases h with
    | ret h => exact .ret h.of_unplaced
  | expr =>
    cases h with
    | expr h => exact .expr h.of_unplaced
  | _ => cases h

theorem IsTopStatement.of_unplaced {t : Tree} (h : t.unplaced.IsTopStatement N) :
    t.IsTopStatement N := by
  cases t with
  | declare =>
    cases h with
    | declare hparams hresult =>
      exact .declare (fun p hp => (forall_mem_unplacedAll.1 hparams p hp).of_unplaced) hresult
  | define =>
    cases h with
    | define hparams hresult hbody =>
      exact .define (fun p hp => (forall_mem_unplacedAll.1 hparams p hp).of_unplaced) hresult
        fun s hs => (forall_mem_unplacedAll.1 hbody s hs).of_unplaced
  | expr =>
    cases h with
    | expr h hascribed => exact .expr h.of_unplaced hascribed
  | _ =>
    -- of the other trees only an alias is a statement
    cases h <;> exact .alias (by assumption)

/-- A parsed program has the shape of programs, and its numbers are spelled as number tokens are. -/
theorem isProgram_of_parse {file : String} {ts : List Token} {p : Tree}
    (h : parse file ts = .ok p) (hN : ∀ t ∈ ts, t.kind = .number → N t.text) : p.IsProgram N := by
  obtain ⟨ss, hss⟩ := exists_unplaced_of_parse h
  have hprogram := parse_eq_ok_iff.1 ⟨p, h, hss⟩
  have htop := hprogram.isTopStatement fun t ht => hN t ((List.takeWhile_sublist _).subset ht)
  cases p with
  | program rs =>
    cases hss
    exact .program fun s hs => (forall_mem_unplacedAll.1 htop s hs).of_unplaced
  | _ => cases hss

end Tree

end StructLang
