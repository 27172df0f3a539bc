import StructLang.Proofs.Token.Hygiene
import StructLang.Proofs.Tree.Names

namespace StructLang

open Token

namespace Tree

variable {B : String → Prop} {A : Ty → Prop} {N : String → Prop} {t : Tree}

def binding? : Tree → Option String
  | .param n _ _ | .alias n _ _ => some n
  | _ => none

def annotation? : Tree → Option Ty
  | .param _ type _ | .alias _ type _ | .declare _ _ type _ | .define _ _ type _ _ => some type
  | .expr _ ascribed _ => ascribed
  | _ => none

/-- The names that the nodes of a tree introduce are of one form and the types of another. -/
def Annotates (B : String → Prop) (A : Ty → Prop) (t : Tree) : Prop :=
  ∀ s ∈ t.preorder, (∀ n ∈ s.binding?, B n) ∧ ∀ type ∈ s.annotation?, A type

theorem annotates_iff : t.Annotates B A ↔
    ((∀ n ∈ t.binding?, B n) ∧ ∀ type ∈ t.annotation?, A type) ∧
      ∀ s ∈ t.children, s.Annotates B A := by
  rw [Annotates, preorder_eq_cons, List.forall_mem_cons, List.forall_mem_flatMap]
  rfl

theorem annotates_iff_children (hname : t.binding? = none) (htype : t.annotation? = none) :
    t.Annotates B A ↔ ∀ s ∈ t.children, s.Annotates B A := by
  simp [annotates_iff (t := t), hname, htype]

theorem Annotates.of_unplaced {t : Tree} (h : t.unplaced.Annotates B A) : t.Annotates B A := by
  have hname : t.unplaced.binding? = t.binding? := by cases t <;> rfl
  have htype : t.unplaced.annotation? = t.annotation? := by cases t <;> rfl
  rw [annotates_iff, hname, htype, children_unplaced, List.forall_mem_map] at h
  rw [annotates_iff]
  exact ⟨h.1, fun s hs => (h.2 s hs).of_unplaced⟩
termination_by sizeOf t
decreasing_by exact sizeOf_lt_of_mem_children hs

theorem IsExpr.annotates (h : t.IsExpr N) : t.Annotates B A := by
  induction h with
  | number | string | name =>
    rw [annotates_iff_children rfl rfl]
    simp [children]
  | binary _ _ ihl ihr =>
    rw [annotates_iff_children rfl rfl]
    simpa [children] using ⟨ihl, ihr⟩
  | call _ _ ihf ihargs =>
    rw [annotates_iff_children rfl rfl]
    exact List.forall_mem_cons.2 ⟨ihf, ihargs⟩
  | member _ ih =>
    rw [annotates_iff_children rfl rfl]
    exact List.forall_mem_singleton.2 ih

theorem IsStatement.annotates (h : t.IsStatement N) : t.Annotates B A := by
  cases h with
  | ret h | expr h =>
    rw [annotates_iff_children rfl rfl]
    exact List.forall_mem_singleton.2 h.annotates

end Tree

namespace Grammar

variable {A : Ty → Prop} {b : Token}

theorem kind_of_isSymbol {t : Token} {s : String} (h : t.isSymbol s) : t.kind = .symbol := by
  simp only [isSymbol, Bool.and_eq_true, beq_iff_eq] at h
  exact h.1

def Admits (A : Ty → Prop) (ts : List Token) : Prop :=
  ∀ t ∈ ts, ∀ type : Ty, type.IsWritten → type.text = t.text → A type

theorem TypeName.wordType? {t : Token} {type : Ty} (h : TypeName t type) :
    Token.wordType? t.word = some type := by
  match h with
  | .literal hkind | .alias hkind => rw [Token.word, hkind, Token.wordType?]

theorem wordType?_of_returnType {t : Token} (h : t.kind = .returnType) :
    wordType? t.word = some (.ofText t.text) := by
  rw [Token.word, h, wordType?]

theorem admitted {t : Token} {type : Ty} {ts : List Token} (hword : wordType? t.word = some type)
    (hb : b.kind = .symbol) (htidy : Tidy (t :: b :: ts)) {us : List Token} (hA : Admits A us)
    (ht : t ∈ us) : A type := by
  obtain ⟨hwritten, htext⟩ := ((tidy_cons.1 htidy).1 b rfl hb).type type hword
  exact hA t ht type hwritten htext

theorem Param.annotates {ts : List Token} {p : Tree} (h : Param ts p) (hb : b.kind = .symbol)
    (htidy : Tidy (ts ++ [b])) (hA : Admits A ts) : p.Annotates IsPlain A := by
  cases h with
  | mk hx hc htype =>
    obtain ⟨hname, htidy⟩ := tidy_cons.1 htidy
    obtain ⟨-, htidy⟩ := tidy_cons.1 htidy
    have hplain := (hname _ rfl (kind_of_isSymbol hc)).name hx
    have htype := admitted htype.wordType? hb htidy hA (by simp)
    rw [Tree.annotates_iff]
    simpa [Tree.binding?, Tree.annotation?, Tree.children] using ⟨hplain, htype⟩

theorem Params.annotates {ts : List Token} {ps : List Tree} (h : Params ts ps)
    (hb : b.kind = .symbol) (htidy : Tidy (ts ++ [b])) (hA : Admits A ts) :
    ∀ p ∈ ps, p.Annotates IsPlain A := by
  induction h with
  | one h => exact List.forall_mem_singleton.2 (h.annotates hb htidy hA)
  | @cons ts p us ps c h hc _ ih =>
    have hsplit : ts ++ c :: us ++ [b] = (ts ++ [c]) ++ (us ++ [b]) := by simp
    rw [hsplit] at htidy
    rw [List.forall_mem_cons]
    exact ⟨h.annotates (kind_of_isSymbol hc) htidy.left_of_append fun t ht => hA t (by simp [ht]),
      ih htidy.right_of_append fun t ht => hA t (by simp [ht])⟩

theorem Parameters.annotates {ts : List Token} {ps : List Tree} (h : Parameters ts ps)
    (hb : b.kind = .symbol) (htidy : Tidy (ts ++ [b])) (hA : Admits A ts) :
    ∀ p ∈ ps, p.Annotates IsPlain A := by
  cases h with
  | none => simp
  | some h => exact h.annotates hb htidy hA

theorem Header.annotates {ts : List Token} {n : String} {ps : List Tree} {result : Ty}
    (h : Header ts n ps result) (hb : b.kind = .symbol) (htidy : Tidy (ts ++ [b]))
    (hA : Admits A ts) : (∀ p ∈ ps, p.Annotates IsPlain A) ∧ A result := by
  cases h with
  | @mk us _ x a c r _ _ hparams hc hr =>
    have hsplit : x :: a :: us ++ [c, r] ++ [b] = [x, a] ++ ((us ++ [c]) ++ [r, b]) := by simp
    rw [hsplit] at htidy
    exact ⟨hparams.annotates (kind_of_isSymbol hc) htidy.right_of_append.left_of_append
        fun t ht => hA t (by simp [ht]),
      admitted (wordType?_of_returnType hr) hb htidy.right_of_append.right_of_append hA (by simp)⟩

theorem Ascription.annotates {ts : List Token} {ascribed : Option Ty} (h : Ascription ts ascribed)
    (hb : b.kind = .symbol) (htidy : Tidy (ts ++ [b])) (hA : Admits A ts) :
    ∀ type ∈ ascribed, A type := by
  cases h with
  | none => simp
  | @some t hkind =>
    rintro type ⟨⟩
    exact admitted (wordType?_of_returnType hkind) hb htidy hA (by simp)

theorem TopStatement.annotates {ts : List Token} {s : Tree} (h : TopStatement ts s)
    (htidy : Tidy ts) (hA : Admits A ts) : s.Annotates IsPlain A := by
  rw [Tree.annotates_iff]
  match h with
  | .alias hx heq htype hs =>
    obtain ⟨hname, htidy⟩ := tidy_cons.1 htidy
    obtain ⟨-, htidy⟩ := tidy_cons.1 htidy
    have hplain := (hname _ rfl (kind_of_isSymbol heq)).name hx
    have htype := admitted htype.wordType? (kind_of_isSymbol hs) htidy hA (by simp)
    simpa [Tree.binding?, Tree.annotation?, Tree.children] using ⟨hplain, htype⟩
  | .declare h hs =>
    obtain ⟨hparams, hresult⟩ :=
      h.annotates (kind_of_isSymbol hs) htidy fun t ht => hA t (by simp [ht])
    simpa [Tree.binding?, Tree.annotation?, Tree.children] using ⟨hresult, hparams⟩
  | .define h _ ha hbody _ =>
    rw [List.append_assoc, List.cons_append] at htidy
    obtain ⟨hparams, hresult⟩ :=
      h.annotates (kind_of_isSymbol ha) htidy.upTo fun t ht => hA t (by simp [ht])
    refine ⟨by simpa [Tree.binding?, Tree.annotation?] using hresult, ?_⟩
    exact List.forall_mem_append.2 ⟨hparams, fun s hs =>
      (hbody.isStatement (N := fun _ => True) (fun _ _ _ => trivial) s hs).annotates⟩
  | .call _ _ hargs _ hascribed hs =>
    rw [List.append_assoc] at htidy
    have htype := hascribed.annotates (kind_of_isSymbol hs) (tidy_cons.1 htidy.right_of_append).2
      fun t ht => hA t (by simp [ht])
    refine ⟨⟨by simp [Tree.binding?], htype⟩, List.forall_mem_singleton.2 ?_⟩
    exact (Tree.IsExpr.call (N := fun _ => True) .name
      (hargs.isExpr fun _ _ _ => trivial)).annotates

theorem Program.annotates {ts : List Token} {ss : List Tree} (h : Program ts ss)
    (htidy : Tidy ts) (hA : Admits A ts) : ∀ s ∈ ss, s.Annotates IsPlain A := by
  induction h with
  | nil => simp
  | semicolon _ _ ih => exact ih (tidy_cons.1 htidy).2 fun t ht => hA t (by simp [ht])
  | cons h _ ih =>
    rw [List.forall_mem_cons]
    exact ⟨h.annotates htidy.left_of_append fun t ht => hA t (by simp [ht]),
      ih htidy.right_of_append fun t ht => hA t (by simp [ht])⟩

end Grammar

namespace Tree

theorem annotates_of_scan {file source : String} {ts : List Token} {p : Tree}
    (hscan : Token.scan file source = .ok ts) (hparse : parse file ts = .ok p) :
    p.Annotates IsPlain fun type => type.IsWritten ∧ ∃ t ∈ ts, t.text = type.text := by
  obtain ⟨ss, hss⟩ := exists_unplaced_of_parse hparse
  have hprogram := parse_eq_ok_iff.1 ⟨p, hparse, hss⟩
  have htidy : Tidy (ts.takeWhile (·.kind != .eof)) := by
    have hall := tidy_of_scan hscan
    rw [← List.takeWhile_append_dropWhile (p := (·.kind != .eof)) (l := ts)] at hall
    exact hall.left_of_append
  refine .of_unplaced ?_
  rw [hss, annotates_iff_children rfl rfl]
  refine hprogram.annotates htidy fun t ht type hwritten htext => ?_
  exact ⟨hwritten, t, (List.takeWhile_sublist _).subset ht, htext.symm⟩

end Tree

end StructLang
