import Mathlib.Data.List.Chain
import Mathlib.Data.List.Nodup
import StructLang.Proofs.Table
import StructLang.Proofs.Tree.Shape
import StructLang.Proofs.Ty.Expansion

namespace StructLang

namespace Ty

theorem allNative_iff {ts : List Ty} : allNative ts ↔ ∀ t ∈ ts, t.isNative := by
  induction ts with
  | nil => simp [allNative]
  | cons t ts ih => simp [allNative, ih]

end Ty

namespace Aliases

def IsNative (Γ : Aliases) : Prop := ∀ e ∈ Γ, e.2.isNative

def Reaches (Γ : Aliases) (t : Ty) (n : String) : Prop :=
  ∃ m ∈ t.names, Relation.ReflTransGen Γ.Uses m n

mutual

inductive Expands (Γ : Aliases) : Ty → Ty → Prop
  | prim : Expands Γ (.prim name) (.prim name)
  | array : Expands Γ e r → Expands Γ (.array e) (.array r)
  | union : ExpandsAll Γ ms rs → Expands Γ (.union ms) (.union rs)
  | alias : Γ.get? name = some d → Expands Γ d r → Expands Γ (.alias name) r

inductive ExpandsAll (Γ : Aliases) : List Ty → List Ty → Prop
  | nil : ExpandsAll Γ [] []
  | cons : Expands Γ t r → ExpandsAll Γ ts rs → ExpandsAll Γ (t :: ts) (r :: rs)

end

/-- The names go once around a cycle that the type leads to, and end with the one they begin
with. -/
structure IsCycle (Γ : Aliases) (t : Ty) (chain : List String) : Prop where
  closed : ∃ n between, chain = n :: between ++ [n] ∧ (n :: between).Nodup
  reached : ∀ n ∈ chain, Γ.Reaches t n
  linked : chain.IsChain Γ.Uses

def Explains (Γ : Aliases) (t : Ty) : AliasError → Prop
  | .unknown n => Γ.Reaches t n ∧ Γ.get? n = none
  | .cyclic chain => Γ.IsCycle t chain
  | .unsupported _ => False

structure Trail (Γ : Aliases) (root : Ty) (path : List String) (t : Ty) : Prop where
  nodup : path.Nodup
  reached : ∀ n ∈ path, Γ.Reaches root n
  next : ∀ n ∈ t.names, Γ.Reaches root n ∧ (path ++ [n]).IsChain Γ.Uses

/-- To resolve the second type is to resolve the first, each inside the definitions of the names
beside it. -/
inductive Calls (Γ : Aliases) : List String × Ty → List String × Ty → Prop
  | definition : n ∉ path → Γ.get? n = some d → Calls Γ (path ++ [n], d) (path, .alias n)
  | element : Calls Γ (path, e) (path, .array e)
  | member : m ∈ ms → Calls Γ (path, m) (path, .union ms)

variable {Γ : Aliases} {root t d : Ty} {path chain : List String} {n : String}

theorem reaches_of_mem (h : n ∈ t.names) : Γ.Reaches t n := ⟨n, h, .refl⟩

theorem IsCycle.transGen (h : Γ.IsCycle t chain) :
    ∃ n, Γ.Reaches t n ∧ Relation.TransGen Γ.Uses n n := by
  obtain ⟨n, between, rfl, -⟩ := h.closed
  refine ⟨n, h.reached n List.mem_cons_self, ?_⟩
  have hlinked := h.linked
  cases between with
  | nil => exact .single (List.isChain_pair.1 hlinked)
  | cons m between =>
    obtain ⟨huses, hrest⟩ := List.isChain_cons_cons.1 hlinked
    have hback := List.relationReflTransGen_of_exists_isChain_cons (b := n) _ hrest (by simp)
    exact .head' huses hback

theorem exists_dropWhile_eq_cons (h : n ∈ path) :
    ∃ between, path.dropWhile (· ≠ n) = n :: between := by
  induction path with
  | nil => cases h
  | cons m path ih =>
    by_cases hm : m = n
    · exact ⟨path, by simp [hm]⟩
    · rw [List.dropWhile_cons_of_pos (by simpa using hm)]
      exact ih ((List.mem_cons.1 h).resolve_left (Ne.symm hm))

namespace Trail

theorem start (Γ : Aliases) (t : Ty) : Γ.Trail t [] t where
  nodup := .nil
  reached := by simp
  next _ hn := ⟨reaches_of_mem hn, .singleton _⟩

theorem part (h : Γ.Trail root path t) (hnames : d.names ⊆ t.names) : Γ.Trail root path d where
  nodup := h.nodup
  reached := h.reached
  next n hn := h.next n (hnames hn)

theorem enter (h : Γ.Trail root path (.alias n)) (hpath : n ∉ path) (hd : Γ.get? n = some d) :
    Γ.Trail root (path ++ [n]) d := by
  obtain ⟨⟨m, hm, hmn⟩, hchain⟩ := h.next n (List.mem_singleton_self n)
  refine ⟨?_, ?_, fun k hk => ?_⟩
  · rw [← List.concat_eq_append]
    exact List.Nodup.concat hpath h.nodup
  · rw [List.forall_mem_append]
    exact ⟨h.reached, List.forall_mem_singleton.2 ⟨m, hm, hmn⟩⟩
  · have huses : Γ.Uses n k := ⟨d, hd, hk⟩
    refine ⟨⟨m, hm, hmn.tail huses⟩, hchain.append (.singleton k) ?_⟩
    simpa using huses

theorem isCycle (h : Γ.Trail root path (.alias n)) (hpath : n ∈ path) :
    Γ.IsCycle root (path.dropWhile (· ≠ n) ++ [n]) := by
  obtain ⟨hn, hchain⟩ := h.next n (List.mem_singleton_self n)
  have hsuffix := List.dropWhile_suffix (l := path) (· ≠ n)
  refine ⟨?_, ?_, ?_⟩
  · obtain ⟨between, heq⟩ := exists_dropWhile_eq_cons hpath
    refine ⟨n, between, by rw [heq], ?_⟩
    rw [← heq]
    exact h.nodup.sublist hsuffix.sublist
  · rw [List.forall_mem_append]
    exact ⟨fun m hm => h.reached m (hsuffix.subset hm), List.forall_mem_singleton.2 hn⟩
  · exact hchain.suffix ((List.suffix_append_inj_of_length_eq rfl).2 ⟨hsuffix, rfl⟩)

end Trail

mutual

theorem resolveFrom_yields (hΓ : Γ.IsNative) {path : List String} {t : Ty}
    (h : Γ.Trail root path t) (ht : t.isNative) :
    Yields (resolveFrom Γ path t) (Γ.Expands t) (Γ.Explains root) := by
  match t with
  | .prim name =>
    rw [resolveFrom]
    exact .ok .prim
  | .alias name =>
    rw [resolveFrom]
    split
    · rename_i hpath
      exact .error (h.isCycle hpath)
    · rename_i hpath
      split
      · rename_i hnone
        exact .error ⟨(h.next name (List.mem_singleton_self name)).1, hnone⟩
      · rename_i d hd
        have hd' : d.isNative := hΓ _ (Table.mem_of_get? hd)
        exact (resolveFrom_yields hΓ (h.enter hpath hd) hd').mono (fun _ => .alias hd) fun _ => id
  | .array e =>
    have helement : Γ.Trail root path e := h.part (List.Subset.refl _)
    rw [resolveFrom]
    exact (resolveFrom_yields hΓ helement ht).bind fun _ hr => .ok (.array hr)
  | .union ms =>
    have hmembers : ∀ m ∈ ms, Γ.Trail root path m := fun m hm =>
      h.part fun n hn => Ty.mem_namesAll.2 ⟨m, hm, hn⟩
    rw [resolveFrom]
    exact (resolveAll_yields hΓ hmembers (Ty.allNative_iff.1 ht)).bind fun _ hrs => .ok (.union hrs)
  | .foreign => cases ht
termination_by (Γ.pending path, sizeOf t)
decreasing_by
  · exact Prod.Lex.left _ _ (pending_lt (by assumption) (by assumption))
  · apply Prod.Lex.right
    simp
  · apply Prod.Lex.right
    simp

theorem resolveAll_yields (hΓ : Γ.IsNative) {path : List String} {ts : List Ty}
    (h : ∀ t ∈ ts, Γ.Trail root path t) (hts : ∀ t ∈ ts, t.isNative) :
    Yields (resolveAll Γ path ts) (Γ.ExpandsAll ts) (Γ.Explains root) := by
  match ts with
  | [] =>
    rw [resolveAll]
    exact .ok .nil
  | t :: ts =>
    rw [List.forall_mem_cons] at h hts
    rw [resolveAll]
    exact (resolveFrom_yields hΓ h.1 hts.1).bind fun _ hr =>
      (resolveAll_yields hΓ h.2 hts.2).bind fun _ hrs => .ok (.cons hr hrs)
termination_by (Γ.pending path, sizeOf ts)
decreasing_by
  · apply Prod.Lex.right
    simp only [List.cons.sizeOf_spec]
    omega
  · apply Prod.Lex.right
    simp only [List.cons.sizeOf_spec]
    omega

end

theorem resolve_yields (hΓ : Γ.IsNative) (ht : t.isNative) :
    Yields (Γ.resolve t) (Γ.Expands t) (Γ.Explains t) :=
  resolveFrom_yields hΓ (.start Γ t) ht

theorem calls_wellFounded (Γ : Aliases) : WellFounded Γ.Calls := by
  let measure (c : List String × Ty) : Nat × Nat := (Γ.pending c.1, sizeOf c.2)
  have hwf : WellFounded (InvImage (Prod.Lex (· < ·) (· < ·)) measure) :=
    InvImage.wf measure (Prod.lex Nat.lt_wfRel Nat.lt_wfRel).wf
  refine Subrelation.wf (fun {a b} h => ?_) hwf
  cases h with
  | definition hpath hd => exact Prod.Lex.left _ _ (pending_lt hpath hd)
  | element =>
    apply Prod.Lex.right
    simp
  | member hm =>
    apply Prod.Lex.right
    have := List.sizeOf_lt_of_mem hm
    simp only [Ty.union.sizeOf_spec]
    omega

/-- Resolution ends: it gives the expansion of the type exactly if every name that the type leads to
has a definition and leads not back to itself, and its errors name one that does not. -/
theorem resolve_decides (hΓ : Γ.IsNative) (ht : t.isNative) :
    WellFounded Γ.Calls ∧
      ((∃ r, Γ.resolve t = .ok r) ↔ ∀ n, Γ.Reaches t n →
        (∃ d, Γ.get? n = some d) ∧ ¬Relation.TransGen Γ.Uses n n) ∧
      (∀ r, Γ.resolve t = .ok r → Γ.Expands t r ∧ r.isClosed) ∧
      ∀ e, Γ.resolve t = .error e → Γ.Explains t e := by
  have hyields := resolve_yields hΓ ht
  refine ⟨Γ.calls_wellFounded, ⟨?_, fun hsound => ?_⟩, fun r hr => ?_, fun e => hyields.of_error⟩
  · rintro hok n ⟨m, hm, hmn⟩
    exact Resolves.sound hok hm hmn
  · cases hresolve : Γ.resolve t with
    | ok r => exact ⟨r, rfl⟩
    | error e =>
      have hexplains := hyields.of_error hresolve
      cases e with
      | unknown n =>
        obtain ⟨d, hd⟩ := (hsound n hexplains.1).1
        cases hd.symm.trans hexplains.2
      | cyclic chain =>
        obtain ⟨n, hn, hcycle⟩ := IsCycle.transGen hexplains
        exact absurd hcycle (hsound n hn).2
      | unsupported kind => exact hexplains.elim
  · exact ⟨hyields.of_ok hr, isClosed_of_resolveFrom hr⟩

theorem resolve_decides_tree :
    let Γ : Aliases := [("Id", .number), ("Row", .array (.alias "Id")),
      ("Node", .union [.alias "Row", .array (.alias "Tree")]), ("Tree", .array (.alias "Node"))]
    Γ.IsNative ∧
      (Γ.resolve (.alias "Row") = .ok (.array .number) ∧
        Γ.Expands (.alias "Row") (.array .number) ∧ ¬Relation.TransGen Γ.Uses "Row" "Row") ∧
      Γ.resolve (.array (.alias "Node")) = .error (.cyclic ["Node", "Tree", "Node"]) ∧
        Γ.Explains (.array (.alias "Node")) (.cyclic ["Node", "Tree", "Node"]) := by
  intro Γ
  have hΓ : Γ.IsNative := by simp [Γ, IsNative, Ty.isNative, Ty.allNative, Ty.number]
  have hrow : Γ.resolve (.alias "Row") = .ok (.array .number) := by
    simp [Γ, resolve, resolveFrom, Table.get?, Ty.number]
  have hnode : Γ.resolve (.array (.alias "Node")) = .error (.cyclic ["Node", "Tree", "Node"]) := by
    simp [Γ, resolve, resolveFrom, resolveAll, Table.get?, Ty.number]
  obtain ⟨-, hiff, hok, -⟩ := resolve_decides hΓ (t := .alias "Row") rfl
  obtain ⟨-, -, -, herror⟩ := resolve_decides hΓ (t := .array (.alias "Node")) rfl
  have hreached : Γ.Reaches (.alias "Row") "Row" := reaches_of_mem (by simp [Ty.names])
  exact ⟨hΓ, ⟨hrow, (hok _ hrow).1, (hiff.1 ⟨_, hrow⟩ _ hreached).2⟩, hnode, herror _ hnode⟩

end Aliases

end StructLang
