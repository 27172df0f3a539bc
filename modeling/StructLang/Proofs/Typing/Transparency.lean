import StructLang.Proofs.Typing.Calls
import StructLang.Proofs.Typing.Expansion
import StructLang.Proofs.Typing.Refusals

namespace StructLang

open Aliases

namespace Typing

theorem same_of_isClosed (sc sc' : Scope) {a b : Ty} (ha : a.isClosed) (hb : b.isClosed) :
    sc.same a b = sc'.same a b := by
  rw [Scope.same, Scope.same, same_eq, same_eq, resolve_of_isClosed _ ha, resolve_of_isClosed _ hb,
    resolve_of_isClosed _ ha, resolve_of_isClosed _ hb]

theorem fits_of_isClosed (sc sc' : Scope) {a b : Ty} (ha : a.isClosed) (hb : b.isClosed) :
    sc.fits a b = sc'.fits a b := by
  rw [Scope.fits, Scope.fits, fits_eq, fits_eq, resolve_of_isClosed _ ha, resolve_of_isClosed _ hb,
    resolve_of_isClosed _ ha, resolve_of_isClosed _ hb]

theorem requireOperands_of_isClosed (sc sc' : Scope) (op : Operator) {expected : Ty}
    (he : expected.isClosed) (loc : Option Span) {ts : List Ty} (h : ∀ t ∈ ts, t.isClosed) :
    requireOperands sc op expected loc ts = requireOperands sc' op expected loc ts := by
  induction ts with
  | nil => rfl
  | cons t ts ih =>
    rw [List.forall_mem_cons] at h
    rw [requireOperands, requireOperands, same_of_isClosed sc sc' h.1 he, ih h.2]

theorem operatorType_of_isClosed (sc sc' : Scope) (op : Operator) {l r : Ty} (hl : l.isClosed)
    (hr : r.isClosed) (loc : Option Span) :
    operatorType sc op l r loc = operatorType sc' op l r loc := by
  have hrequire {expected : Ty} (he : expected.isClosed) :
      requireOperands sc op expected loc [l, r] = requireOperands sc' op expected loc [l, r] :=
    requireOperands_of_isClosed sc sc' op he loc (by simp [hl, hr])
  cases op with
  | add => rfl
  | sub | mul | div | lt | gt | le | ge | and | or =>
    rw [operatorType, operatorType, hrequire rfl]
  | eq | ne => rw [operatorType, operatorType, same_of_isClosed sc sc' hl hr]

namespace Scope

def expand (Γ : Aliases) (sc : Scope) : Scope where
  aliases := sc.aliases.mapValues Γ.expansion
  signatures := sc.signatures.mapValues (Signature.expand Γ)
  locals := sc.locals

structure Resolved (sc : Scope) : Prop extends sc.IsNative where
  params : ∀ n s, sc.signatures.get? n = some s → ∀ t ∈ s.params, sc.aliases.Resolves t
  result : ∀ n s, sc.signatures.get? n = some s → sc.aliases.Resolves s.result

variable {sc : Scope}

theorem resolve_of_resolves {t : Ty} (h : sc.aliases.Resolves t) (loc : Option Span) :
    sc.resolve t loc = .ok (sc.aliases.expansion t) := by
  rw [resolve, h.resolve_eq]
  rfl

theorem resolve_expansion {t : Ty} (h : sc.aliases.Resolves t) (loc : Option Span) :
    (sc.expand sc.aliases).resolve (sc.aliases.expansion t) loc = sc.resolve t loc := by
  rw [resolve_of_resolves h, resolve, resolve_of_isClosed _ h.isClosed_expansion]
  rfl

theorem signature_expand (sc : Scope) (Γ : Aliases) (name : String) (loc : Option Span) :
    (sc.expand Γ).signature name loc = Signature.expand Γ <$> sc.signature name loc := by
  rw [signature, signature]
  cases hfind : Library.find? name with
  | some s =>
    obtain ⟨hparams, hresult⟩ := isClosed_of_find? hfind
    have hs : s.expand Γ = s := by
      cases s with
      | mk params result variadic =>
        have hmap : params.map Γ.expansion = params := by
          rw [List.map_congr_left fun t ht => expansion_of_isClosed Γ (hparams t ht), List.map_id']
        simp [Signature.expand, hmap, expansion_of_isClosed Γ hresult]
    exact congrArg Except.ok hs.symm
  | none =>
    rw [expand, Table.get?_mapValues]
    cases sc.signatures.get? name <;> rfl

theorem Resolved.of_signature (h : sc.Resolved) {name : String} {loc : Option Span} {s : Signature}
    (hs : sc.signature name loc = .ok s) :
    (∀ t ∈ s.params, sc.aliases.Resolves t) ∧ sc.aliases.Resolves s.result := by
  obtain hfind | ⟨_, hget⟩ := signature_cases hs
  · obtain ⟨hparams, hresult⟩ := isClosed_of_find? hfind
    exact ⟨fun t ht => ⟨t, resolve_of_isClosed _ (hparams t ht)⟩,
      ⟨_, resolve_of_isClosed _ hresult⟩⟩
  · exact ⟨h.params name s hget, h.result name s hget⟩

theorem Resolved.infers (h : sc.Resolved) {N : String → Prop} {t : Tree} (ht : t.IsExpr N) :
    Infers (fun _ => True) sc t :=
  infers_of_isExpr h.toIsNative ht fun _ _ => trivial

theorem paramType_expand (Γ : Aliases) (s : Signature) (index : Nat) :
    paramType (s.expand Γ) index = Γ.expansion (paramType s index) := by
  have hany : Γ.expansion .any = .any := expansion_of_isClosed Γ rfl
  simp only [paramType, Signature.expand, Signature.arity, List.length_map, List.getElem?_map]
  cases s.params[min index (s.params.length - 1)]? with
  | none => exact hany.symm
  | some t => rfl

end Scope

variable {N : String → Prop} {P : Option Span → Prop} {sc : Scope}

theorem inferAll_expand {ts : List Tree} {sc' : Scope} (h : ∀ t ∈ ts, visit sc' t = visit sc t) :
    inferAll sc' ts = inferAll sc ts := by
  induction ts with
  | nil => rfl
  | cons t ts ih =>
    rw [List.forall_mem_cons] at h
    rw [inferAll, inferAll, h.1, ih h.2]

theorem checkArguments_expand {s : Signature}
    (hs : ∀ t ∈ s.params, sc.aliases.Resolves t) (name : String) (loc : Option Span)
    {ts : List Tree} (hinfers : ∀ t ∈ ts, Infers P sc t)
    (h : ∀ t ∈ ts, visit (sc.expand sc.aliases) t = visit sc t) (index : Nat) :
    checkArguments (sc.expand sc.aliases) name (s.expand sc.aliases) loc index ts =
      checkArguments sc name s loc index ts := by
  induction ts generalizing index with
  | nil => rfl
  | cons t ts ih =>
    rw [List.forall_mem_cons] at h hinfers
    have hparam : sc.aliases.Resolves (Scope.paramType s index) := by
      obtain hmem | hany := paramType_cases s index
      · exact hs _ hmem
      · rw [hany]
        exact ⟨_, resolve_of_isClosed _ rfl⟩
    have hexpected := Scope.resolve_of_resolves hparam loc
    have hexpected' : (sc.expand sc.aliases).resolve (Scope.paramType (s.expand sc.aliases) index)
        loc = .ok (sc.aliases.expansion (Scope.paramType s index)) := by
      rw [Scope.paramType_expand, Scope.resolve_expansion hparam, hexpected]
    change
      ((sc.expand sc.aliases).resolve (Scope.paramType (s.expand sc.aliases) index) loc >>= _) =
      sc.resolve (Scope.paramType s index) loc >>= _
    rw [hexpected, hexpected', ok_bind, ok_bind, h.1]
    refine hinfers.1.bind_congr fun found hfound => ?_
    rw [fits_of_isClosed _ sc hfound hparam.isClosed_expansion, ih hinfers.2 h.2]

theorem visit_expand (hsc : sc.Resolved) {t : Tree} (h : t.IsExpr N) :
    visit (sc.expand sc.aliases) t = visit sc t := by
  induction h with
  | number | string => rw [visit, visit]
  | name =>
    rw [visit, visit]
    rfl
  | @binary l r op place hl hr ihl ihr =>
    rw [visit, visit, ihl, ihr]
    refine (hsc.infers hl).bind_congr fun a ha => (hsc.infers hr).bind_congr fun b hb => ?_
    rw [operatorType_of_isClosed _ sc op ha hb]
  | @call f args place hf hargs ihf ihargs =>
    have hinfers := fun t ht => hsc.infers (hargs t ht)
    cases hname : f.calleeName? with
    | none => simp only [visit, hname, ihf, inferAll_expand ihargs]
    | some n =>
      simp only [visit, hname, Scope.signature_expand]
      cases hs : sc.signature n place with
      | error e => rfl
      | ok s =>
        obtain ⟨hparams, hresult⟩ := hsc.of_signature hs
        have hargs' := checkArguments_expand hparams n place hinfers ihargs 0
        have hresult' := Scope.resolve_expansion hresult place
        simp only [map_ok, ok_bind, hargs', Signature.variadic_expand, Signature.arity_expand,
          Signature.result_expand, hresult']
  | member _ ih => rw [visit, visit, ih]

theorem visitAll_params_expand {ps : List Tree} (h : ∀ p ∈ ps, p.IsParam)
    (hps : ∀ p ∈ ps, p.Resolves sc.aliases) :
    ∃ rs, visitAll sc ps = .ok rs ∧
      visitAll (sc.expand sc.aliases) (Tree.expandAll sc.aliases ps) = .ok rs ∧
      ∀ r ∈ rs, IsResolved r := by
  induction ps with
  | nil => exact ⟨[], rfl, rfl, nofun⟩
  | cons p ps ih =>
    rw [List.forall_mem_cons] at h hps
    obtain ⟨⟨_⟩, h⟩ := h
    rename_i type place _
    have htype : sc.aliases.Resolves type := (Tree.resolves_iff.1 hps.1).1 _ rfl
    have hresolve := Scope.resolve_of_resolves htype place
    obtain ⟨rs, hrs, hrs', hresolved⟩ := ih h hps.2
    refine ⟨some (sc.aliases.expansion type) :: rs, ?_, ?_,
      List.forall_mem_cons.2 ⟨⟨_, rfl, htype.isClosed_expansion⟩, hresolved⟩⟩
    · simp [visitAll, visit, closesScope, hresolve, hrs]
    · simp [Tree.expandAll, Tree.expand, visitAll, visit, closesScope,
        Scope.resolve_expansion htype, hresolve, hrs']

theorem bindParams_expandAll (Γ : Aliases) (ps : List Tree) (rs : List (Option Ty))
    (locals : Table (Option Ty)) :
    bindParams (Tree.expandAll Γ ps) rs locals = bindParams ps rs locals := by
  induction ps generalizing rs locals with
  | nil => rfl
  | cons p ps ih =>
    have hname : boundName? (p.expand Γ) = boundName? p := by cases p <;> rfl
    cases rs with
    | nil => rfl
    | cons r rs =>
      rw [Tree.expandAll, bindParams, bindParams, hname]
      simp only [ih]

theorem firstReturn_expand (hsc : sc.Resolved) {ss : List Tree} (h : ∀ s ∈ ss, s.IsStatement N) :
    firstReturn (sc.expand sc.aliases) ss = firstReturn sc ss := by
  induction ss with
  | nil => rfl
  | cons s ss ih =>
    rw [List.forall_mem_cons] at h
    obtain ⟨hs, hss⟩ := h
    cases hs with
    | ret he => rw [firstReturn, firstReturn, visit_expand hsc he]
    | expr _ => exact ih hss

def Scope.localsOf (sc : Scope) : Tree → Except Fault (Table (Option Ty))
  | .define _ params _ _ _ => do bindParams params (← visitAll sc params) []
  | _ => .ok []

theorem Scope.Resolved.with_locals (h : sc.Resolved) {locals : Table (Option Ty)}
    (hlocals : ∀ e ∈ locals, IsResolved e.2) : Scope.Resolved { sc with locals } :=
  ⟨⟨h.aliases, h.signatures, hlocals⟩, h.params, h.result⟩

theorem exists_locals {ps : List Tree} (h : ∀ p ∈ ps, p.IsParam) {rs : List (Option Ty)}
    (hrs : ∀ r ∈ rs, IsResolved r) :
    ∃ locals, bindParams ps rs [] = .ok locals ∧ ∀ e ∈ locals, IsResolved e.2 :=
  Yields.exists_ok (bindParams_yields h hrs (by simp))

theorem localsOf_expand (hsc : sc.Resolved) {t : Tree} (h : t.IsTopStatement N)
    (ht : t.Resolves sc.aliases) :
    ∃ locals, sc.localsOf t = .ok locals ∧
      (sc.expand sc.aliases).localsOf (t.expand sc.aliases) = .ok locals ∧
      Scope.Resolved { sc with locals } := by
  match h with
  | .define hparams _ _ =>
    have hps := (List.forall_mem_append.1 (Tree.resolves_iff.1 ht).2).1
    obtain ⟨rs, hrs, hrs', hresolved⟩ := visitAll_params_expand hparams hps
    obtain ⟨locals, hbind, hlocals⟩ := exists_locals hparams hresolved
    refine ⟨locals, ?_, ?_, hsc.with_locals hlocals⟩
    · rw [Scope.localsOf, hrs, ok_bind, hbind]
    · rw [Tree.expand, Scope.localsOf, hrs', ok_bind, bindParams_expandAll, hbind]
  | .alias _ | .declare _ _ | .expr _ _ =>
    exact ⟨[], rfl, rfl, hsc.with_locals (by simp)⟩

theorem sameAll_of_isResolved (sc sc' : Scope) {rs : List (Option Ty)}
    (hrs : ∀ r ∈ rs, IsResolved r) {ts : List Ty} (hts : ∀ t ∈ ts, t.isClosed) :
    sameAll sc rs ts = sameAll sc' rs ts := by
  induction rs generalizing ts with
  | nil => rfl
  | cons r rs ih =>
    rw [List.forall_mem_cons] at hrs
    obtain ⟨⟨t, rfl, ht⟩, hrs⟩ := hrs
    cases ts with
    | nil => rfl
    | cons u us =>
      rw [List.forall_mem_cons] at hts
      rw [sameAll, sameAll, same_of_isClosed sc sc' ht hts.1, ih hrs hts.2]

theorem checkForward_of_isResolved (sc sc' : Scope) (name : String) {rs : List (Option Ty)}
    (hrs : ∀ r ∈ rs, IsResolved r) {result : Ty} (hresult : result.isClosed) (loc : Option Span) :
    checkForward sc name rs result loc = checkForward sc' name rs result loc := by
  rw [checkForward, checkForward]
  cases hfind : Library.find? name with
  | none => rfl
  | some s =>
    obtain ⟨hparams, hclosed⟩ := isClosed_of_find? hfind
    simp only [same_of_isClosed sc sc' hresult hclosed, sameAll_of_isResolved sc sc' hrs hparams]

theorem toOption_ite_congr {α : Type} (x : Except Fault Bool) (a : α) (m m' : Mismatch)
    (place : Option Span) :
    (do if ← x then return a else mismatch m place : Except Fault α).toOption =
      (do if ← x then return a else mismatch m' place : Except Fault α).toOption := by
  cases x with
  | error e => rfl
  | ok b => cases b <;> rfl

/-- A statement passes the check where all aliases are replaced if and only if it does before: what
differs is the wording of refusals. -/
theorem toOption_visit_expand (hsc : sc.Resolved) {t : Tree} (h : t.IsTopStatement N)
    (ht : t.Resolves sc.aliases) :
    (visit (sc.expand sc.aliases) (t.expand sc.aliases)).toOption = (visit sc t).toOption := by
  obtain ⟨hwritten, hchildren⟩ := Tree.resolves_iff.1 ht
  match h with
  | .alias _ => rw [Tree.expand, visit, visit, Scope.resolve_expansion (hwritten _ rfl)]
  | .declare hparams _ =>
    have hresult := hwritten _ rfl
    obtain ⟨rs, hrs, hrs', hresolved⟩ := visitAll_params_expand hparams hchildren
    rw [Tree.expand, visit, visit, hrs, hrs', Scope.resolve_expansion hresult,
      Scope.resolve_of_resolves hresult]
    simp only [ok_bind]
    rw [checkForward_of_isResolved _ sc _ hresolved hresult.isClosed_expansion]
  | .define hparams _ hbody =>
    have hresult := hwritten _ rfl
    have hps := (List.forall_mem_append.1 hchildren).1
    obtain ⟨rs, hrs, hrs', hresolved⟩ := visitAll_params_expand hparams hps
    obtain ⟨locals, hbind, hlocals⟩ := exists_locals hparams hresolved
    rw [Tree.expand, visit, visit, hrs, hrs', Scope.resolve_expansion hresult,
      Scope.resolve_of_resolves hresult, Tree.expandAll_eq_self fun s hs => (hbody s hs).expand_eq]
    simp only [ok_bind, bindParams_expandAll, hbind]
    split
    · rfl
    · split
      · rfl
      · have hinner := hsc.with_locals hlocals
        have hreturn : firstReturn { sc.expand sc.aliases with locals } _ = firstReturn _ _ :=
          firstReturn_expand hinner hbody
        rw [hreturn]
        split
        · rfl
        · rename_i place x hx
          obtain ⟨_, hyields⟩ := firstReturn_yields (P := fun _ => True) hinner.toIsNative hbody
            (fun _ _ _ _ => trivial) hx
          refine hyields.toOption_bind_congr fun found hfound => ?_
          rw [same_of_isClosed _ sc hfound hresult.isClosed_expansion]
          exact toOption_ite_congr _ _ _ _ _
  | .expr he hnative =>
    rename_i e ascribed place
    rw [Tree.expand, he.expand_eq]
    unfold visit
    rw [visit_expand hsc he]
    refine (hsc.infers he).toOption_bind_congr fun ty hty => ?_
    cases ascribed with
    | none => rfl
    | some a =>
      have ha := hwritten a rfl
      dsimp only [Option.map_some]
      rw [Scope.resolve_expansion ha, Scope.resolve_of_resolves ha, ok_bind, ok_bind,
        same_of_isClosed _ sc hty ha.isClosed_expansion]
      exact toOption_ite_congr _ _ _ _ _

theorem passes_expand_iff (hsc : sc.Resolved) {t : Tree} (h : t.IsTopStatement N)
    (ht : t.Resolves sc.aliases) :
    Passes (sc.expand sc.aliases) (t.expand sc.aliases) ↔ Passes sc t := by
  simp only [Passes, ← toOption_eq_some, toOption_visit_expand hsc h ht]

theorem typed_expand (hsc : sc.Resolved) {t e : Tree} (h : t.IsTopStatement N)
    (ht : t.Resolves sc.aliases) (he : e ∈ t.preorder) (hexpr : e.isExpression) :
    typed (e.expand sc.aliases) (visit (sc.expand sc.aliases) (e.expand sc.aliases)) =
      typed e (visit sc e) := by
  obtain hexpr | ⟨⟨_⟩⟩ := h.isExpr_or_isParam he hexpr
  · rw [hexpr.expand_eq, visit_expand hsc hexpr]
  · rw [Tree.expand, visit, visit, Scope.resolve_expansion (ht _ he _ rfl)]
    rfl

theorem resolves_of_resolve {t r : Ty} {loc : Option Span} (h : sc.resolve t loc = .ok r) :
    sc.aliases.Resolves t :=
  ⟨r, atPlace_eq_ok.1 h⟩

theorem resolves_of_visitAll {ps : List Tree} (h : ∀ p ∈ ps, p.IsParam) {rs : List (Option Ty)}
    (hrs : visitAll sc ps = .ok rs) : ∀ p ∈ ps, p.Resolves sc.aliases := by
  induction ps generalizing rs with
  | nil => exact nofun
  | cons p ps ih =>
    rw [List.forall_mem_cons] at h
    obtain ⟨⟨_⟩, h⟩ := h
    rw [visitAll, visit] at hrs
    obtain ⟨r, hr, hrs⟩ := bind_eq_ok.1 hrs
    obtain ⟨rs, hrs, _⟩ := bind_eq_ok.1 hrs
    obtain ⟨type, htype, _⟩ := bind_eq_ok.1 hr
    refine List.forall_mem_cons.2 ⟨Tree.resolves_iff.2 ⟨?_, List.forall_mem_nil _⟩, ih h hrs⟩
    rintro _ ⟨⟩
    exact resolves_of_resolve htype

theorem Passes.resolves {t : Tree} (h : t.IsTopStatement N) (ht : Passes sc t) :
    t.Resolves sc.aliases := by
  obtain ⟨r, hr⟩ := ht
  rw [Tree.resolves_iff]
  match h with
  | .alias _ =>
    rw [visit] at hr
    obtain ⟨type, htype, _⟩ := bind_eq_ok.1 hr
    refine ⟨?_, List.forall_mem_nil _⟩
    rintro _ ⟨⟩
    exact resolves_of_resolve htype
  | .declare hparams _ =>
    rw [visit] at hr
    obtain ⟨rs, hrs, hr⟩ := bind_eq_ok.1 hr
    obtain ⟨type, htype, _⟩ := bind_eq_ok.1 hr
    refine ⟨?_, resolves_of_visitAll hparams hrs⟩
    rintro _ ⟨⟩
    exact resolves_of_resolve htype
  | .define hparams _ hbody =>
    rw [visit] at hr
    obtain ⟨rs, hrs, hr⟩ := bind_eq_ok.1 hr
    obtain ⟨type, htype, _⟩ := bind_eq_ok.1 hr
    refine ⟨?_, List.forall_mem_append.2 ⟨resolves_of_visitAll hparams hrs, fun s hs => ?_⟩⟩
    · rintro _ ⟨⟩
      exact resolves_of_resolve htype
    · exact (hbody s hs).resolves
  | .expr he _ =>
    rename_i e ascribed place
    refine ⟨?_, List.forall_mem_singleton.2 he.resolves⟩
    rintro a rfl
    unfold visit at hr
    obtain ⟨ty, _, hr⟩ := bind_eq_ok.1 hr
    obtain ⟨type, htype, _⟩ := bind_eq_ok.1 hr
    exact resolves_of_resolve htype

namespace State

theorem resolved_collect {ss : List Tree} (hss : ∀ s ∈ ss, s.IsTopStatement N)
    (h : ∀ s ∈ ss, s.Resolves (({} : State).collect ss).1.aliases) :
    (({} : State).collect ss).1.scope.Resolved := by
  obtain ⟨hnative, hok⟩ := isNative_empty.collect hss
  have hsigned : ∀ n s, (({} : State).collect ss).1.signatures.get? n = some s →
      (∀ t ∈ s.params, (({} : State).collect ss).1.aliases.Resolves t) ∧
        (({} : State).collect ss).1.aliases.Resolves s.result := by
    intro n s hs
    obtain ⟨_, hnone⟩ | ⟨d, s', hd, hs', hsigns⟩ := Table.get?_related (collect_related hok) n
    · cases hnone.symm.trans hs
    · cases hs'.symm.trans hs
      obtain ⟨t, ht, hdecl⟩ := mem_declarations (Table.mem_of_get? hd)
      exact (h t ht).of_signs hdecl hsigns
  exact ⟨hnative.scope, fun n s hs => (hsigned n s hs).1, fun n s hs => (hsigned n s hs).2⟩

theorem forall_mem_aliases {ss : List Tree}
    (h : ∀ s ∈ ss, s.Resolves (({} : State).collect ss).1.aliases) :
    ∀ e ∈ (({} : State).collect ss).1.aliases,
      (({} : State).collect ss).1.aliases.Resolves e.2 := by
  intro e he
  obtain ⟨place, hs⟩ := mem_aliases he
  exact (Tree.resolves_iff.1 (h _ hs)).1 _ rfl

theorem check_expand_iff {t : Tree} (ht : t.IsProgram N)
    (h : t.Resolves (({} : State).check t).1.aliases) :
    (({} : State).check (t.expand (({} : State).check t).1.aliases)).2 = .ok () ↔
      (({} : State).check t).2 = .ok () := by
  rw [check_fst] at h ⊢
  cases ht with
  | @program ss file place hss =>
    rw [Tree.statements] at h ⊢
    have hresolves := (Tree.resolves_iff.1 h).2
    have hsc := resolved_collect hss hresolves
    have haliases := forall_mem_aliases hresolves
    have hexpanded : ∀ Δ : Aliases, ∀ e ∈ (({} : State).collect ss).1.aliases.mapValues
        (({} : State).collect ss).1.aliases.expansion, Δ.Resolves e.2 := by
      intro Δ e he
      obtain ⟨e', he', rfl⟩ := List.mem_map.1 he
      exact ⟨_, resolve_of_isClosed Δ (haliases e' he').isClosed_expansion⟩
    rw [Tree.expand, check_program_iff, check_program_iff, collect_expandAll, Tree.expandAll_eq_map,
      List.forall_mem_map]
    refine and_congr_right fun _ => and_congr ⟨fun _ => haliases, fun _ => hexpanded _⟩ ?_
    exact forall₂_congr fun s hs => passes_expand_iff hsc (hss s hs) (hresolves s hs)

theorem resolves_of_check {t : Tree} (ht : t.IsProgram N)
    (h : (({} : State).check t).2 = .ok ()) : t.Resolves (({} : State).check t).1.aliases := by
  have hpasses := passes_of_check ht (Prod.ext rfl h)
  cases ht with
  | program hss =>
    exact Tree.resolves_iff.2 ⟨nofun, fun s hs => (hpasses s hs).resolves (hss s hs)⟩

end State

end Typing

open Typing

namespace Tree

def tables (t : Tree) : State := (({} : State).check t).1

def expanded (t : Tree) : Tree := t.expand t.tables.aliases

/-- In each statement the same parameters are in scope as in the expanded one, and every expression
has the same type. -/
def TypesKept (t : Tree) : Prop :=
  ∀ s ∈ t.statements, ∃ locals, t.tables.scope.localsOf s = .ok locals ∧
    t.expanded.tables.scope.localsOf (s.expand t.tables.aliases) = .ok locals ∧
    ∀ e ∈ s.preorder, e.isExpression →
      typed (e.expand t.tables.aliases)
          (visit { t.expanded.tables.scope with locals } (e.expand t.tables.aliases)) =
        typed e (visit { t.tables.scope with locals } e)

def AliasesSound (t : Tree) : Prop :=
  ∀ s ∈ t.preorder, ∀ type ∈ s.annotation?, ∀ n ∈ type.names, ∀ m,
    Relation.ReflTransGen t.tables.aliases.Uses n m →
      (∃ d, t.tables.aliases.get? m = some d) ∧ ¬Relation.TransGen t.tables.aliases.Uses m m

variable {N : String → Prop} {t : Tree}

theorem IsProgram.tables_expanded (ht : t.IsProgram N) :
    t.expanded.tables = t.tables.expand t.tables.aliases := by
  cases ht with
  | program hss =>
    rw [expanded, tables, State.check_fst, expand, statements, State.collect_expandAll, tables,
      State.check_fst, statements]

theorem IsProgram.typesKept (ht : t.IsProgram N) (h : t.Resolves t.tables.aliases) :
    t.TypesKept := by
  intro s hs
  rw [ht.tables_expanded]
  cases ht with
  | program hss =>
    rw [tables, State.check_fst] at h ⊢
    have hresolves := (resolves_iff.1 h).2
    obtain ⟨locals, hlocals, hexpanded, hsc⟩ :=
      localsOf_expand (State.resolved_collect hss hresolves) (hss s hs) (hresolves s hs)
    refine ⟨locals, hlocals, hexpanded, fun e he hexpr => ?_⟩
    exact typed_expand hsc (hss s hs) (hresolves s hs) he hexpr

end Tree

/-- Aliases are transparent to the check. Where every type of a parsed program resolves, the program
passes if and only if the expanded one does, and every expression has the same type in both; and in
a program that passes every type resolves. -/
theorem check_transparent {file : String} {ts : List Token} {t : Tree}
    (h : Tree.parse file ts = .ok t) :
    (t.Resolves t.tables.aliases →
      ((({} : State).check t).2 = .ok () ↔ (({} : State).check t.expanded).2 = .ok ()) ∧
      t.expanded.preorder = t.preorder.map (Tree.expand t.tables.aliases) ∧ t.TypesKept) ∧
    ((({} : State).check t).2 = .ok () → t.Resolves t.tables.aliases ∧ t.AliasesSound) := by
  have ht := Tree.isProgram_of_parse (N := fun _ => True) h fun _ _ _ => trivial
  refine ⟨fun hresolves => ?_, fun hchecks => ?_⟩
  · exact ⟨(State.check_expand_iff ht hresolves).symm, Tree.preorder_expand _ t,
      ht.typesKept hresolves⟩
  · have hresolves := State.resolves_of_check ht hchecks
    refine ⟨hresolves, fun s hs type htype n hn m hm => ?_⟩
    exact (hresolves s hs type htype).sound hn hm

namespace Named

def tokens : List Token :=
  [⟨.identifier, "t", 1, 1⟩, ⟨.symbol, "=", 1, 3⟩, ⟨.type, "number", 1, 5⟩, ⟨.symbol, ";", 1, 11⟩,
    ⟨.identifier, "f", 1, 13⟩, ⟨.symbol, "(", 1, 14⟩, ⟨.identifier, "x", 1, 15⟩,
    ⟨.symbol, ":", 1, 16⟩, ⟨.identifier, "t", 1, 18⟩, ⟨.symbol, ")", 1, 19⟩,
    ⟨.returnType, "number", 1, 22⟩, ⟨.symbol, "\x7b", 1, 29⟩, ⟨.keyword, "return", 1, 31⟩,
    ⟨.identifier, "x", 1, 38⟩, ⟨.symbol, ";", 1, 39⟩, ⟨.symbol, "\x7d", 1, 41⟩,
    ⟨.identifier, "f", 1, 43⟩, ⟨.symbol, "(", 1, 44⟩, ⟨.number, "1", 1, 45⟩, ⟨.symbol, ")", 1, 46⟩,
    ⟨.returnType, "number", 1, 49⟩, ⟨.symbol, ";", 1, 55⟩, ⟨.eof, "", 1, 56⟩]

open MainFile (place)

def tree : Tree := .program
  [.alias "t" .number (place 1 1),
    .define "f" [.param "x" (.alias "t") (place 15 1)] .number
      [.ret (.name "x" (place 38 1)) (place 31 6)] (place 13 1),
    .expr (.call (.name "f" (place 43 1)) [.number "1" (place 45 1)] (place 43 1))
      (some .number) (place 43 1)]
  "main.struct" (place 1 1)

theorem parse_tokens : Tree.parse "main.struct" tokens = .ok tree := by cbv

theorem check_tree : (({} : State).check tree).2 = .ok () := by
  let st : State := {
    aliases := [("t", .number)]
    signatures := [("f", ⟨[.alias "t"], .number, false⟩)]
    declarations := [("f", ⟨[.param "x" (.alias "t") (place 15 1)], .number, true⟩)] }
  have halias : st.scope.IsNumber (.alias "t") := by
    rw [Scope.IsNumber]
    cbv
  have hcall : visit st.scope (.call (.name "f" (place 43 1)) [.number "1" (place 45 1)]
      (place 43 1)) = .ok (some .number) :=
    visit_call_number rfl (List.forall_mem_singleton.2 (.inl halias))
      (st.scope.isNumber_number.resolve _) (.inr rfl) (by decide)
      (List.forall_mem_singleton.2 (visit_number _ _ _))
  have hparams : AreNumbers st.scope [.param "x" (.alias "t") (place 15 1)] :=
    List.forall_mem_singleton.2 ⟨_, _, _, rfl, halias⟩
  refine congrArg Prod.snd (State.check_eq rfl
    (List.forall_mem_singleton.2 ⟨_, st.scope.isNumber_number⟩)
    (List.forall_mem_cons.2 ⟨passes_alias (Scope.isNumber_number _), List.forall_mem_cons.2 ⟨?_,
      List.forall_mem_singleton.2 (passes_expr_number hcall (Scope.isNumber_number _))⟩⟩) _ _)
  exact passes_define_number rfl hparams (Scope.isNumber_number _) rfl rfl
    (by simp [firstReturn, typed, visit])

end Named

theorem check_transparent_named :
    Tree.parse "main.struct" Named.tokens = .ok Named.tree ∧
      Named.tree.Resolves Named.tree.tables.aliases ∧
      (({} : State).check Named.tree.expanded).2 = .ok () ∧ Named.tree.TypesKept := by
  obtain ⟨hkept, hresolves⟩ := check_transparent Named.parse_tokens
  obtain ⟨hresolves, _⟩ := hresolves Named.check_tree
  obtain ⟨hchecks, _, htypes⟩ := hkept hresolves
  exact ⟨Named.parse_tokens, hresolves, hchecks.1 Named.check_tree, htypes⟩

end StructLang
