import StructLang.Proofs.Typing.Transparency

namespace StructLang

namespace Table

variable {α : Type} {better : α → α → Bool} {t u : Table α} {name : String}

theorem get?_keep_of_ne {e : String × α} (h : e.1 ≠ name) :
    (t.keep better e).get? name = t.get? name := by
  obtain hput | ⟨_, hsame⟩ := keep_cases better t e
  · rw [hput, get?_put_of_ne _ _ h.symm]
  · rw [hsame]

theorem get?_keep_congr {e : String × α} (h : t.get? e.1 = u.get? e.1) :
    (t.keep better e).get? e.1 = (u.keep better e).get? e.1 := by
  rw [keep, keep, ← h]
  split
  · rw [get?_put_self, get?_put_self]
  · split
    · rw [get?_put_self, get?_put_self]
    · exact h

theorem get?_foldl_keep_filter (es : List (String × α)) (h : t.get? name = u.get? name) :
    (es.foldl (keep better) t).get? name =
      ((es.filter fun e => e.1 = name).foldl (keep better) u).get? name := by
  induction es generalizing t u with
  | nil => exact h
  | cons e es ih =>
    by_cases he : e.1 = name
    · subst he
      rw [List.filter_cons_of_pos (by simp), List.foldl_cons, List.foldl_cons]
      exact ih (get?_keep_congr h)
    · rw [List.filter_cons_of_neg (by simpa using he), List.foldl_cons]
      exact ih ((get?_keep_of_ne he).trans h)

theorem mem_iff_get? (h : t.names.Nodup) {e : String × α} : e ∈ t ↔ t.get? e.1 = some e.2 :=
  ⟨get?_of_mem h, mem_of_get?⟩

end Table

theorem Declaration.Signs.unique {d : Declaration} {s s' : Signature} (h : d.Signs s)
    (h' : d.Signs s') : s = s' := by
  have hparams : s.params = s'.params :=
    List.map_injective_iff.2 (Option.some_injective _) (h.params.symm.trans h'.params)
  have hresult := h.result.trans h'.result.symm
  have hvariadic := h.variadic.trans h'.variadic.symm
  cases s
  cases hparams
  cases hresult
  cases hvariadic
  rfl

namespace Tree

def aliasName? (t : Tree) : Option String := t.aliased?.map Prod.fst

def functionName? (t : Tree) : Option String := t.declaration?.map Prod.fst

/-- The same statements in an order that keeps the order of the aliases of each name, and that of
the functions of each name. -/
structure Reordered (ss ss' : List Tree) : Prop where
  perm : ss.Perm ss'
  aliases : ∀ n,
    (ss.filter fun s => s.aliasName? = some n) = ss'.filter fun s => s.aliasName? = some n
  functions : ∀ n,
    (ss.filter fun s => s.functionName? = some n) = ss'.filter fun s => s.functionName? = some n

theorem filter_filterMap {α : Type} (f : Tree → Option (String × α)) (ss : List Tree) (n : String) :
    ((ss.filterMap f).filter fun e => e.1 = n) =
      (ss.filter fun s => (f s).map Prod.fst = some n).filterMap f := by
  induction ss with
  | nil => rfl
  | cons s ss ih =>
    cases h : f s with
    | none => simpa [h] using ih
    | some e => by_cases he : e.1 = n <;> simp [h, he, ih]

theorem get?_foldl_keep_filterMap {α : Type} {better : α → α → Bool}
    {f : Tree → Option (String × α)} {ss ss' : List Tree} {n : String}
    (h : (ss.filter fun s => (f s).map Prod.fst = some n) =
      ss'.filter fun s => (f s).map Prod.fst = some n) :
    ((ss.filterMap f).foldl (Table.keep better) []).get? n =
      ((ss'.filterMap f).foldl (Table.keep better) []).get? n := by
  rw [Table.get?_foldl_keep_filter (u := []) _ rfl, filter_filterMap, h, ← filter_filterMap,
    ← Table.get?_foldl_keep_filter (t := []) _ rfl]

end Tree

namespace Typing

structure Scope.Agrees (sc sc' : Scope) : Prop where
  aliases : sc.aliases.get? = sc'.aliases.get?
  signature : sc.signature = sc'.signature
  locals : sc.locals = sc'.locals
  resolves :
    (∀ e ∈ sc.aliases, sc.aliases.Resolves e.2) ↔ ∀ e ∈ sc'.aliases, sc'.aliases.Resolves e.2

variable {sc sc' : Scope}

theorem Scope.signature_congr
    (h : ∀ n, ¬Library.reserved n → sc.signatures.get? n = sc'.signatures.get? n) :
    sc.signature = sc'.signature := by
  funext name loc
  rw [signature, signature]
  split
  · rfl
  · rename_i hnone
    rw [h name (Library.find?_eq_none_iff.1 hnone)]

namespace Scope.Agrees

theorem with_locals (h : sc.Agrees sc') (locals : Table (Option Ty)) :
    Scope.Agrees { sc with locals } { sc' with locals } :=
  ⟨h.aliases, h.signature, rfl, h.resolves⟩

theorem resolve_eq (h : sc.Agrees sc') : sc.resolve = sc'.resolve := by
  funext t loc
  rw [resolve, resolve, Aliases.resolve_congr h.aliases]

theorem same_eq (h : sc.Agrees sc') : sc.same = sc'.same := by
  funext a b
  rw [same, same, Aliases.same_eq, Aliases.same_eq, Aliases.resolve_congr h.aliases,
    Aliases.resolve_congr h.aliases]

theorem fits_eq (h : sc.Agrees sc') : sc.fits = sc'.fits := by
  funext a b
  rw [fits, fits, Aliases.fits_eq, Aliases.fits_eq, Aliases.resolve_congr h.aliases,
    Aliases.resolve_congr h.aliases]

theorem requireOperands_eq (h : sc.Agrees sc') (op : Operator) (expected : Ty) (loc : Option Span)
    (ts : List Ty) :
    requireOperands sc op expected loc ts = requireOperands sc' op expected loc ts := by
  induction ts with
  | nil => rfl
  | cons t ts ih => rw [requireOperands, requireOperands, h.same_eq, ih]

theorem operatorType_eq (h : sc.Agrees sc') (op : Operator) (l r : Ty) (loc : Option Span) :
    operatorType sc op l r loc = operatorType sc' op l r loc := by
  cases op with
  | add => rfl
  | sub | mul | div | lt | gt | le | ge | and | or =>
    rw [operatorType, operatorType, h.requireOperands_eq]
  | eq | ne => rw [operatorType, operatorType, h.same_eq]

theorem sameAll_eq (h : sc.Agrees sc') (rs : List (Option Ty)) (ts : List Ty) :
    sameAll sc rs ts = sameAll sc' rs ts := by
  fun_induction sameAll sc rs ts with
  | case1 t rs e ts ih => rw [sameAll, h.same_eq, ih]
  | case2 rs e ts => rfl
  | case3 rs ts h h' => rw [sameAll] <;> assumption

theorem checkForward_eq (h : sc.Agrees sc') : checkForward sc = checkForward sc' := by
  funext name rs result loc
  simp only [checkForward, h.same_eq, h.sameAll_eq]

theorem toOption_resolveAliases (h : sc.Agrees sc') (ss : List Tree) :
    (resolveAliases sc ss sc.aliases).toOption = (resolveAliases sc' ss sc'.aliases).toOption := by
  refine Option.ext fun u => ?_
  rw [toOption_eq_some, toOption_eq_some, resolveAliases_eq_ok_iff, resolveAliases_eq_ok_iff,
    h.resolves]

end Scope.Agrees

theorem toOption_typed (t : Tree) (x : Except Fault (Option Ty)) :
    (typed t x).toOption = x.toOption.join := by
  cases x with
  | error e => rfl
  | ok r => cases r <;> rfl

mutual

theorem toOption_visit_congr {sc sc' : Scope} (h : sc.Agrees sc') (t : Tree) :
    (visit sc t).toOption = (visit sc' t).toOption := by
  cases t with
  | number | string | unruled | stray => simp only [visit]
  | name => simp only [visit, h.locals]
  | binary op left right loc =>
    simp only [visit, toOption_bind, toOption_typed, toOption_visit_congr h left,
      toOption_visit_congr h right, h.operatorType_eq]
  | call callee args loc =>
    cases hname : callee.calleeName? with
    | none =>
      simp only [visit, hname, toOption_bind, toOption_typed, toOption_visit_congr h callee,
        toOption_inferAll_congr h args]
    | some name =>
      simp only [visit, hname, toOption_bind, h.signature]
      refine congrArg _ (funext fun s => ?_)
      split
      · rfl
      · simp only [toOption_bind, toOption_checkArguments_congr h name s loc 0 args, h.resolve_eq]
  | member object property loc =>
    simp only [visit, toOption_bind, toOption_typed, toOption_visit_congr h object]
  | param n type loc => simp only [visit, h.resolve_eq]
  | «alias» n type loc => simp only [visit, h.resolve_eq]
  | ret e loc => simp only [visit, toOption_bind, toOption_typed, toOption_visit_congr h e]
  | expr e ascribed loc =>
    unfold visit
    simp only [toOption_bind, toOption_typed, toOption_visit_congr h e, h.resolve_eq, h.same_eq]
  | declare name params result loc =>
    simp only [visit, toOption_bind, toOption_visitAll_congr h params, h.resolve_eq,
      h.checkForward_eq]
  | define name params result body loc =>
    simp only [visit, toOption_bind, toOption_visitAll_congr h params, h.resolve_eq]
    refine congrArg _ (funext fun types => congrArg _ (funext fun r => ?_))
    split
    · rfl
    · split
      · rfl
      · simp only [toOption_bind]
        refine congrArg _ (funext fun locals => ?_)
        obtain ⟨hnone, hnone'⟩ | ⟨place, x, x', hx, hx', heq⟩ :=
          firstReturn_congr (h.with_locals locals) body
        · rw [hnone, hnone']
        · simp only [hx, hx', toOption_bind, heq, h.same_eq]
  | program ss file loc =>
    simp only [visit, toOption_bind, h.toOption_resolveAliases, toOption_visitAll_congr h ss]

theorem toOption_visitAll_congr {sc sc' : Scope} (h : sc.Agrees sc') (ts : List Tree) :
    (visitAll sc ts).toOption = (visitAll sc' ts).toOption := by
  cases ts with
  | nil => rfl
  | cons t ts =>
    have hscope : Scope.Agrees (if closesScope t then { sc with locals := [] } else sc)
        (if closesScope t then { sc' with locals := [] } else sc') := by
      split
      · exact h.with_locals []
      · exact h
    simp only [visitAll, toOption_bind, toOption_visit_congr h t, toOption_visitAll_congr hscope ts]

theorem toOption_inferAll_congr {sc sc' : Scope} (h : sc.Agrees sc') (ts : List Tree) :
    (inferAll sc ts).toOption = (inferAll sc' ts).toOption := by
  cases ts with
  | nil => rfl
  | cons t ts =>
    simp only [inferAll, toOption_bind, toOption_typed, toOption_visit_congr h t,
      toOption_inferAll_congr h ts]

theorem toOption_checkArguments_congr {sc sc' : Scope} (h : sc.Agrees sc') (name : String)
    (s : Signature) (loc : Option Span) (index : Nat) (ts : List Tree) :
    (checkArguments sc name s loc index ts).toOption =
      (checkArguments sc' name s loc index ts).toOption := by
  cases ts with
  | nil => rfl
  | cons t ts =>
    simp only [checkArguments, toOption_bind, toOption_typed, toOption_visit_congr h t,
      h.resolve_eq, h.fits_eq, apply_ite Except.toOption,
      toOption_checkArguments_congr h name s loc (index + 1) ts]

theorem firstReturn_congr {sc sc' : Scope} (h : sc.Agrees sc') (ts : List Tree) :
    (firstReturn sc ts = none ∧ firstReturn sc' ts = none) ∨
      ∃ place x x', firstReturn sc ts = some (place, x) ∧ firstReturn sc' ts = some (place, x') ∧
        x.toOption = x'.toOption := by
  match ts with
  | [] => exact .inl ⟨rfl, rfl⟩
  | .ret e loc :: _ =>
    refine .inr ⟨loc, _, _, rfl, rfl, ?_⟩
    rw [toOption_typed, toOption_typed, toOption_visit_congr h e]
  | .number .. :: ts | .string .. :: ts | .name .. :: ts | .binary .. :: ts | .call .. :: ts
  | .member .. :: ts | .param .. :: ts | .alias .. :: ts | .expr .. :: ts | .declare .. :: ts
  | .define .. :: ts | .program .. :: ts | .unruled .. :: ts | .stray .. :: ts =>
    exact firstReturn_congr h ts

end

theorem Scope.Agrees.passes_iff (h : sc.Agrees sc') (t : Tree) : Passes sc t ↔ Passes sc' t := by
  simp only [Passes, ← toOption_eq_some, toOption_visit_congr h t]

theorem forall_resolves_congr {Γ Δ : Aliases} (h : Γ.get? = Δ.get?) (hΓ : Γ.names.Nodup)
    (hΔ : Δ.names.Nodup) : (∀ e ∈ Γ, Γ.Resolves e.2) ↔ ∀ e ∈ Δ, Δ.Resolves e.2 := by
  simp only [Table.mem_iff_get? hΓ, Table.mem_iff_get? hΔ, Aliases.Resolves,
    Aliases.resolve_congr h, h]

namespace State

theorem addSignatures_eq_ok_iff (st : State) (ds : Table Declaration) :
    (st.addSignatures ds).2 = .ok () ↔ ∀ e ∈ ds, ∃ ts, paramTypes e.2.params = .ok ts := by
  induction ds generalizing st with
  | nil => simp [addSignatures]
  | cons d ds ih =>
    rw [addSignatures, List.forall_mem_cons]
    cases h : paramTypes d.2.params with
    | error e => simp
    | ok ts => simp [ih]

theorem collect_eq_ok_iff (ss : List Tree) :
    (({} : State).collect ss).2 = .ok () ↔
      ∀ e ∈ (({} : State).collect ss).1.declarations, ∃ ts, paramTypes e.2.params = .ok ts := by
  rw [collect, addSignatures_eq_ok_iff, (addSignatures_tables _ _).2]

theorem exists_paramTypes {ps : List Tree} (h : ∀ p ∈ ps, (boundType? p).isSome) :
    ∃ ts, paramTypes ps = .ok ts := by
  induction ps with
  | nil => exact ⟨[], rfl⟩
  | cons p ps ih =>
    rw [List.forall_mem_cons] at h
    obtain ⟨t, ht⟩ := Option.isSome_iff_exists.1 h.1
    obtain ⟨ts, hts⟩ := ih h.2
    exact ⟨t :: ts, by simp [paramTypes, ht, hts]⟩

variable {ss ss' : List Tree}

theorem collect_of_isSome
    (h : ∀ s ∈ ss, ∀ d ∈ s.declaration?, ∀ p ∈ d.2.params, (boundType? p).isSome) :
    (({} : State).collect ss).2 = .ok () := by
  refine (collect_eq_ok_iff ss).2 fun e he => ?_
  obtain ⟨s, hs, hd⟩ := mem_declarations he
  exact exists_paramTypes (h s hs e hd)

theorem get?_signatures_congr {n : String} (hss : (({} : State).collect ss).2 = .ok ())
    (hss' : (({} : State).collect ss').2 = .ok ())
    (h : (({} : State).collect ss).1.declarations.get? n =
      (({} : State).collect ss').1.declarations.get? n) :
    (({} : State).collect ss).1.signatures.get? n =
      (({} : State).collect ss').1.signatures.get? n := by
  obtain ⟨hd, hs⟩ | ⟨d, s, hd, hs, hsigns⟩ := Table.get?_related (collect_related hss) n <;>
    obtain ⟨hd', hs'⟩ | ⟨d', s', hd', hs', hsigns'⟩ := Table.get?_related (collect_related hss') n
  · rw [hs, hs']
  · rw [h, hd'] at hd
    cases hd
  · rw [h, hd'] at hd
    cases hd
  · rw [h, hd'] at hd
    cases hd
    rw [hs, hs', hsigns.unique hsigns']

theorem get?_aliases_of_reordered (h : Tree.Reordered ss ss') :
    (({} : State).collect ss).1.aliases.get? = (({} : State).collect ss').1.aliases.get? := by
  rw [collect_aliases, collect_aliases]
  exact funext fun n => Tree.get?_foldl_keep_filterMap (h.aliases n)

theorem get?_declarations_of_reordered (h : Tree.Reordered ss ss') :
    (({} : State).collect ss).1.declarations.get? =
      (({} : State).collect ss').1.declarations.get? := by
  rw [collect_declarations, collect_declarations]
  exact funext fun n => Tree.get?_foldl_keep_filterMap (h.functions n)

theorem collect_ok_iff_of_reordered (h : Tree.Reordered ss ss') :
    (({} : State).collect ss).2 = .ok () ↔ (({} : State).collect ss').2 = .ok () := by
  simp only [collect_eq_ok_iff, Table.mem_iff_get? (nodup_names_declarations _),
    get?_declarations_of_reordered h]

theorem get?_signatures_of_reordered (h : Tree.Reordered ss ss')
    (hss : (({} : State).collect ss).2 = .ok ()) :
    (({} : State).collect ss).1.signatures.get? =
      (({} : State).collect ss').1.signatures.get? := by
  have hss' := (collect_ok_iff_of_reordered h).1 hss
  have hdecls := congrFun (get?_declarations_of_reordered h)
  exact funext fun n => get?_signatures_congr hss hss' (hdecls n)

theorem agrees_of_reordered (h : Tree.Reordered ss ss')
    (hss : (({} : State).collect ss).2 = .ok ()) :
    (({} : State).collect ss).1.scope.Agrees (({} : State).collect ss').1.scope where
  aliases := get?_aliases_of_reordered h
  signature := Scope.signature_congr fun n _ =>
    congrFun (get?_signatures_of_reordered h hss) n
  locals := rfl
  resolves := forall_resolves_congr (get?_aliases_of_reordered h) (nodup_names_aliases ss)
    (nodup_names_aliases ss')

end State

end Typing

open Typing

/-- The order of declarations does not matter, but for that of declarations of one kind and name.
Whatever the order, the check passes the program or not, and the tables are the same as maps; only a
parameter without a type keeps signatures from being collected. -/
theorem check_reordered {ss ss' : List Tree} (h : Tree.Reordered ss ss') (file : String)
    (place : Option Span) :
    ((({} : State).check (.program ss file place)).2 = .ok () ↔
      (({} : State).check (.program ss' file place)).2 = .ok ()) ∧
    (({} : State).check (.program ss file place)).1.aliases.get? =
      (({} : State).check (.program ss' file place)).1.aliases.get? ∧
    ((({} : State).collect ss).2 = .ok () →
      (({} : State).check (.program ss file place)).1.signatures.get? =
        (({} : State).check (.program ss' file place)).1.signatures.get?) ∧
    ((∀ s ∈ ss, ∀ d ∈ s.declaration?, ∀ p ∈ d.2.params, (boundType? p).isSome) →
      (({} : State).collect ss).2 = .ok ()) := by
  simp only [State.check_fst, Tree.statements]
  refine ⟨?_, State.get?_aliases_of_reordered h, State.get?_signatures_of_reordered h,
    State.collect_of_isSome⟩
  rw [State.check_program_iff, State.check_program_iff, ← State.collect_ok_iff_of_reordered h]
  refine and_congr_right fun hss => ?_
  have hagrees := State.agrees_of_reordered h hss
  refine and_congr hagrees.resolves ?_
  simp only [h.perm.mem_iff, hagrees.passes_iff]

theorem check_reordered_named :
    Tree.Reordered Named.tree.statements Named.tree.statements.reverse ∧
      (({} : State).check (.program Named.tree.statements.reverse "main.struct" none)).2 =
        .ok () := by
  have hreordered : Tree.Reordered Named.tree.statements Named.tree.statements.reverse := by
    refine ⟨(List.reverse_perm _).symm, fun n => ?_, fun n => ?_⟩
    · by_cases h : "t" = n <;> simp [Named.tree, Tree.statements, Tree.aliasName?, Tree.aliased?, h]
    · by_cases h : "f" = n <;>
        simp [Named.tree, Tree.statements, Tree.functionName?, Tree.declaration?, h]
  refine ⟨hreordered, (check_reordered hreordered "main.struct" none).1.1 ?_⟩
  rw [State.check_program_iff]
  exact (State.check_program_iff _ _ _).1 Named.check_tree

end StructLang
