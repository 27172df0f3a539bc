import StructLang.Proofs.Ty.Expansion
import StructLang.Proofs.Typing.Signatures

/-!
What a check collects before it begins: the aliases and the signatures of the program, each from a
statement of the top level, with one entry for a name. The check passes if these can be collected,
all aliases resolve, and each statement passes by itself.
-/

namespace StructLang

def Tree.aliased? : Tree → Option (String × Ty)
  | .alias n t _ => some (n, t)
  | _ => none

theorem Tree.exists_of_aliased? {t : Tree} {e : String × Ty} (h : t.aliased? = some e) :
    ∃ place, t = .alias e.1 e.2 place := by
  cases t <;> cases h
  exact ⟨_, rfl⟩

def Tree.isAliasOf (n : String) : Tree → Bool
  | .alias m _ _ => m = n
  | _ => false

theorem Tree.isAliasOf_iff {n : String} {s : Tree} :
    s.isAliasOf n ↔ ∃ d place, s = .alias n d place := by
  match s with
  | .alias m d place => simp [isAliasOf]
  | .number .. | .string .. | .name .. | .binary .. | .call .. | .member .. | .param .. | .ret ..
  | .expr .. | .declare .. | .define .. | .program .. | .unruled .. | .stray .. => simp [isAliasOf]

theorem Table.keep_true {α : Type} (t : Table α) (e : String × α) :
    t.keep (fun _ _ => true) e = t.put e.1 e.2 := by
  rw [keep]
  split <;> rfl

namespace Typing

variable {sc : Scope} {ss : List Tree}

theorem resolveAliases_eq_ok_iff (ss : List Tree) {Γ : Aliases} :
    resolveAliases sc ss Γ = .ok () ↔ ∀ e ∈ Γ, sc.aliases.Resolves e.2 := by
  induction Γ with
  | nil => simp [resolveAliases]
  | cons e Γ ih =>
    rw [resolveAliases, List.forall_mem_cons, ← ih, bind_eq_ok]
    simp only [Scope.resolve, atPlace_eq_ok, Aliases.Resolves, exists_and_right]

theorem resolveAliases_eq_error {Γ : Aliases} {f : Fault} (h : resolveAliases sc ss Γ = .error f) :
    ∃ Γ₁ n d Γ₂ a, Γ = Γ₁ ++ (n, d) :: Γ₂ ∧ (∀ e ∈ Γ₁, sc.aliases.Resolves e.2) ∧
      sc.aliases.resolve d = .error a ∧ f = a.at (aliasPlace n ss) := by
  induction Γ with
  | nil => cases h
  | cons e Γ ih =>
    rw [resolveAliases, Scope.resolve] at h
    cases hd : sc.aliases.resolve e.2 with
    | error a =>
      rw [hd] at h
      cases h
      exact ⟨[], e.1, e.2, Γ, a, rfl, by simp, hd, rfl⟩
    | ok r =>
      rw [hd] at h
      obtain ⟨Γ₁, n, d, Γ₂, a, rfl, hΓ₁, hrest⟩ := ih h
      exact ⟨e :: Γ₁, n, d, Γ₂, a, rfl, List.forall_mem_cons.2 ⟨⟨r, hd⟩, hΓ₁⟩, hrest⟩

theorem aliasPlace_eq_find? (n : String) (ss : List Tree) :
    aliasPlace n ss = (ss.find? (·.isAliasOf n)).bind Tree.loc := by
  induction ss with
  | nil => rfl
  | cons s ss ih =>
    match s with
    | .alias m d place =>
      rw [aliasPlace, ih, List.find?_cons, Tree.isAliasOf]
      by_cases hm : m = n
      · simp [hm, Tree.loc]
      · simp [hm]
    | .number .. | .string .. | .name .. | .binary .. | .call .. | .member .. | .param .. | .ret ..
    | .expr .. | .declare .. | .define .. | .program .. | .unruled .. | .stray .. => exact ih

theorem exists_first_alias {n : String} {d : Ty} {place : Option Span}
    (h : .alias n d place ∈ ss) :
    ∃ d₀, ss.find? (·.isAliasOf n) = some (.alias n d₀ (aliasPlace n ss)) := by
  have hsome : (ss.find? (·.isAliasOf n)).isSome :=
    List.find?_isSome.2 ⟨_, h, Tree.isAliasOf_iff.2 ⟨d, place, rfl⟩⟩
  obtain ⟨s, hs⟩ := Option.isSome_iff_exists.1 hsome
  obtain ⟨d₀, place₀, rfl⟩ := Tree.isAliasOf_iff.1 (List.find?_some hs)
  exact ⟨d₀, by rw [aliasPlace_eq_find?, hs]; rfl⟩

theorem visitAll_of_passes (hlocals : sc.locals = []) (h : ∀ s ∈ ss, Passes sc s) :
    ∃ rs, visitAll sc ss = .ok rs := by
  induction ss with
  | nil => exact ⟨[], rfl⟩
  | cons s ss ih =>
    rw [List.forall_mem_cons] at h
    obtain ⟨⟨r, hr⟩, hss⟩ := h
    obtain ⟨rs, hrs⟩ := ih hss
    refine ⟨r :: rs, ?_⟩
    rw [visitAll, scope_after hlocals, hr, hrs]
    rfl

/-- Statements of the top level are checked each by itself. -/
theorem passes_program_iff (hlocals : sc.locals = []) {file : String} {place : Option Span} :
    Passes sc (.program ss file place) ↔
      (∀ e ∈ sc.aliases, sc.aliases.Resolves e.2) ∧ ∀ s ∈ ss, Passes sc s := by
  rw [Passes, visit, ← resolveAliases_eq_ok_iff ss]
  constructor
  · rintro ⟨r, h⟩
    obtain ⟨_, haliases, h⟩ := bind_eq_ok.1 h
    obtain ⟨rs, hrs, _⟩ := bind_eq_ok.1 h
    exact ⟨haliases, passes_of_visitAll hlocals hrs⟩
  · rintro ⟨haliases, h⟩
    obtain ⟨rs, hrs⟩ := visitAll_of_passes hlocals h
    rw [haliases, hrs]
    exact ⟨none, rfl⟩

namespace State

theorem foldl_addStatement_aliases (st : State) (ss : List Tree) :
    (ss.foldl addStatement st).aliases =
      (ss.filterMap Tree.aliased?).foldl (Table.keep fun _ _ => true) st.aliases := by
  induction ss generalizing st with
  | nil => rfl
  | cons s ss ih =>
    rw [List.foldl_cons, ih]
    match s with
    | .alias name t _ =>
      change _ = ((name, t) :: ss.filterMap Tree.aliased?).foldl _ _
      rw [List.foldl_cons, Table.keep_true]
      rfl
    | .declare .. | .define .. =>
      rw [addStatement, addDeclaration_eq]
      rfl
    | .number .. | .string .. | .name .. | .binary .. | .call .. | .member .. | .param .. | .ret ..
    | .expr .. | .program .. | .unruled .. | .stray .. => rfl

theorem addSignatures_tables (st : State) (ds : List (String × Declaration)) :
    (st.addSignatures ds).1.aliases = st.aliases ∧
      (st.addSignatures ds).1.declarations = st.declarations := by
  induction ds generalizing st with
  | nil => exact ⟨rfl, rfl⟩
  | cons d ds ih =>
    rw [addSignatures]
    split
    · exact ih _
    · exact ⟨rfl, rfl⟩

theorem collect_aliases (ss : List Tree) :
    (({} : State).collect ss).1.aliases =
      (ss.filterMap Tree.aliased?).foldl (Table.keep fun _ _ => true) [] := by
  rw [collect, (addSignatures_tables _ _).1, foldl_addStatement_aliases]

theorem collect_declarations (ss : List Tree) :
    (({} : State).collect ss).1.declarations =
      (ss.filterMap Tree.declaration?).foldl (Table.keep Declaration.better) [] := by
  rw [collect, (addSignatures_tables _ _).2, (foldl_addStatement_declarations _ _).1]

theorem mem_aliases {e : String × Ty} (h : e ∈ (({} : State).collect ss).1.aliases) :
    ∃ place, .alias e.1 e.2 place ∈ ss := by
  rw [collect_aliases] at h
  obtain ⟨s, hs, he⟩ := List.mem_filterMap.1 (Table.mem_of_mem_foldl_keep h)
  obtain ⟨place, rfl⟩ := Tree.exists_of_aliased? he
  exact ⟨place, hs⟩

theorem exists_last_alias {n : String} {d : Ty}
    (h : (({} : State).collect ss).1.aliases.get? n = some d) :
    ∃ place, ss.reverse.find? (·.isAliasOf n) = some (.alias n d place) := by
  rw [collect_aliases] at h
  induction ss using List.reverseRecOn with
  | nil => cases h
  | append_singleton ss s ih =>
    rw [List.filterMap_append, List.foldl_append] at h
    rw [List.reverse_append, List.reverse_singleton, List.singleton_append, List.find?_cons]
    match s with
    | .alias m t place =>
      have hone : [Tree.alias m t place].filterMap Tree.aliased? = [(m, t)] := rfl
      rw [hone, List.foldl_cons, List.foldl_nil, Table.keep_true] at h
      by_cases hm : m = n
      · subst hm
        rw [Table.get?_put_self] at h
        cases h
        simp [Tree.isAliasOf]
      · rw [Table.get?_put_of_ne _ _ (Ne.symm hm)] at h
        simpa [Tree.isAliasOf, hm] using ih h
    | .number .. | .string .. | .name .. | .binary .. | .call .. | .member .. | .param .. | .ret ..
    | .expr .. | .declare .. | .define .. | .program .. | .unruled .. | .stray .. => exact ih h

theorem mem_declarations {e : String × Declaration}
    (h : e ∈ (({} : State).collect ss).1.declarations) : ∃ s ∈ ss, s.declaration? = some e := by
  rw [collect_declarations] at h
  exact List.mem_filterMap.1 (Table.mem_of_mem_foldl_keep h)

theorem nodup_names_aliases (ss : List Tree) :
    (({} : State).collect ss).1.aliases.names.Nodup := by
  rw [collect_aliases, Table.names_foldl_keep]
  exact nodup_eraseDups _

theorem nodup_names_declarations (ss : List Tree) :
    (({} : State).collect ss).1.declarations.names.Nodup := by
  rw [collect_declarations, Table.names_foldl_keep]
  exact nodup_eraseDups _

theorem collect_related (h : (({} : State).collect ss).2 = .ok ()) :
    List.Forall₂ (Table.Related Declaration.Signs) (({} : State).collect ss).1.declarations
      (({} : State).collect ss).1.signatures := by
  rw [collect_declarations]
  exact signatures_of_collect (Prod.ext rfl h)

theorem check_fst (st : State) (t : Tree) : (st.check t).1 = (st.collect t.statements).1 := by
  rw [check]
  split <;> simp_all

theorem check_passes_iff (st : State) (t : Tree) :
    (st.check t).2 = .ok () ↔
      (st.collect t.statements).2 = .ok () ∧ Passes (st.collect t.statements).1.scope t := by
  rw [check]
  split
  · rename_i e h
    simp [h]
  · rename_i st' h
    simp [h, Passes, bind_eq_ok]

theorem check_program_iff (ss : List Tree) (file : String) (place : Option Span) :
    (({} : State).check (.program ss file place)).2 = .ok () ↔
      (({} : State).collect ss).2 = .ok () ∧
      (∀ e ∈ (({} : State).collect ss).1.aliases,
        (({} : State).collect ss).1.aliases.Resolves e.2) ∧
      ∀ s ∈ ss, Passes (({} : State).collect ss).1.scope s := by
  rw [check_passes_iff, Tree.statements, passes_program_iff rfl]
  rfl

end State

end Typing

end StructLang
