import StructLang.Proofs.Ty.Passing
import StructLang.Proofs.Typing.Collecting

namespace StructLang

namespace Typing

namespace Scope

variable {sc : Scope} {t : Ty}

def IsNumber (sc : Scope) (t : Ty) : Prop := sc.aliases.resolve t = .ok .number

def TakesNumber (sc : Scope) (t : Ty) : Prop := sc.IsNumber t ∨ sc.aliases.resolve t = .ok .any

theorem isNumber_number (sc : Scope) : sc.IsNumber .number := Aliases.resolve_of_isClosed _ rfl

theorem takesNumber_number (sc : Scope) : sc.TakesNumber .number := .inl sc.isNumber_number

theorem takesNumber_any (sc : Scope) : sc.TakesNumber .any :=
  .inr (Aliases.resolve_of_isClosed _ rfl)

theorem resolve_any (sc : Scope) (loc : Option Span) : sc.resolve .any loc = .ok .any := by
  rw [resolve, Aliases.resolve_of_isClosed _ rfl]
  rfl

theorem IsNumber.resolve (h : sc.IsNumber t) (loc : Option Span) :
    sc.resolve t loc = .ok .number := by
  rw [Scope.resolve, h]
  rfl

theorem same_number (sc : Scope) : sc.same .number .number = .ok true := by
  rw [same, Aliases.same_of_resolve sc.isNumber_number sc.isNumber_number, Ty.agrees_refl rfl]
  rfl

theorem TakesNumber.exists_fits (h : sc.TakesNumber t) (loc : Option Span) :
    ∃ r, sc.resolve t loc = .ok r ∧ sc.fits .number r = .ok true := by
  obtain h | h := h
  · refine ⟨.number, IsNumber.resolve h loc, ?_⟩
    rw [fits, Aliases.fits_of_resolve sc.isNumber_number sc.isNumber_number,
      Ty.passes_of_agrees (Ty.agrees_refl rfl)]
    rfl
  · refine ⟨.any, ?_, ?_⟩
    · rw [resolve, h]
      rfl
    · rw [fits, Aliases.fits_of_resolve sc.isNumber_number (Aliases.resolve_of_isClosed _ rfl),
        Ty.passes_of_agrees (Ty.agrees_of_isAny (.inr rfl))]
      rfl

end Scope

variable {sc : Scope} {n : String} {s : Signature} {args params body : List Tree} {result : Ty}
  {loc : Option Span}

theorem visit_number (sc : Scope) (text : String) (loc : Option Span) :
    visit sc (.number text loc) = .ok (some .number) := by
  rw [visit]

theorem checkArguments_number (hs : ∀ p ∈ s.params, sc.TakesNumber p)
    (hargs : ∀ a ∈ args, visit sc a = .ok (some .number)) (index : Nat) :
    checkArguments sc n s loc index args = .ok () := by
  have hparam (i : Nat) : sc.TakesNumber (s.params[i]?.getD .any) := by
    cases hi : s.params[i]? with
    | none => exact sc.takesNumber_any
    | some p => exact hs p (List.mem_of_getElem? hi)
  induction args generalizing index with
  | nil => rw [checkArguments]
  | cons a args ih =>
    rw [List.forall_mem_cons] at hargs
    obtain ⟨r, hr, hfits⟩ := (hparam (min index (s.arity - 1))).exists_fits loc
    rw [checkArguments, hr, ok_bind, hargs.1, typed, ok_bind]
    simp only [pure_eq_ok, ok_bind, hfits, if_true]
    exact ih hargs.2 (index + 1)

theorem visit_call_number {callee : Option Span} {r : Ty} (hsignature : sc.signature n loc = .ok s)
    (hs : ∀ p ∈ s.params, sc.TakesNumber p) (hresult : sc.resolve s.result loc = .ok r)
    (hcount : s.variadic ∨ args.length = s.arity) (hname : n ≠ "isURL")
    (hargs : ∀ a ∈ args, visit sc a = .ok (some .number)) :
    visit sc (.call (.name n callee) args loc) = .ok (some r) := by
  have hliteral : checkLiteral n args loc = .ok () := by
    rw [checkLiteral.eq_def]
    split
    · exact absurd rfl hname
    · rfl
  have harity : ¬((!s.variadic && args.length != s.arity) = true) := by
    obtain h | h := hcount <;> simp [h]
  rw [visit]
  simp only [Tree.calleeName?, hsignature, ok_bind]
  rw [if_neg harity, checkArguments_number hs hargs, ok_bind, hliteral, ok_bind, hresult]
  rfl

theorem visit_call_of_arity {callee : Option Span} (hsignature : sc.signature n loc = .ok s)
    (hvariadic : s.variadic = false) (hcount : args.length ≠ s.arity) :
    visit sc (.call (.name n callee) args loc) =
      .error (.refused ⟨.arity n s.arity args.length, loc⟩) := by
  rw [visit]
  simp only [Tree.calleeName?, hsignature, ok_bind]
  exact if_pos (by simp [hvariadic, hcount])

theorem visit_expr_of_error {e : Tree} {x : Fault} (h : visit sc e = .error x)
    (ascribed : Option Ty) : visit sc (.expr e ascribed loc) = .error x := by
  rw [visit.eq_def]
  simp only [h, typed]
  rfl

theorem passes_expr {e : Tree} {t : Ty} (h : visit sc e = .ok (some t)) :
    Passes sc (.expr e none loc) := by
  refine ⟨none, ?_⟩
  simp only [visit, h, typed, ok_bind, pure_eq_ok]

theorem passes_expr_number {e : Tree} (h : visit sc e = .ok (some .number))
    (hresult : sc.IsNumber result) : Passes sc (.expr e (some result) loc) := by
  refine ⟨none, ?_⟩
  rw [visit.eq_def]
  simp only [h, typed, ok_bind, pure_eq_ok, hresult.resolve, sc.same_number, if_true]

theorem passes_alias {t : Ty} (h : sc.IsNumber t) : Passes sc (.alias n t loc) := by
  refine ⟨none, ?_⟩
  rw [visit, h.resolve]
  rfl

theorem passes_print {e : Tree} {callee place : Option Span} (h : visit sc e = .ok (some .number)) :
    Passes sc (.expr (.call (.name "print" callee) [e] loc) none place) :=
  passes_expr (visit_call_number rfl (List.forall_mem_singleton.2 sc.takesNumber_any)
    (sc.resolve_any _) (.inl rfl) (by decide) (List.forall_mem_singleton.2 h))

def AreNumbers (sc : Scope) (params : List Tree) : Prop :=
  ∀ p ∈ params, ∃ x t place, p = .param x t place ∧ sc.IsNumber t

theorem visitAll_params_number (h : AreNumbers sc params) :
    visitAll sc params = .ok (params.map fun _ => some .number) := by
  induction params with
  | nil => rw [visitAll]; rfl
  | cons p params ih =>
    obtain ⟨⟨x, t, place, rfl, ht⟩, hparams⟩ := List.forall_mem_cons.1 h
    have hcloses : closesScope (.param x t place) = false := by simp [closesScope]
    rw [visitAll, hcloses, if_neg Bool.false_ne_true, ih hparams, visit, ht.resolve]
    rfl

theorem passes_declare_number (hparams : AreNumbers sc params) (hresult : sc.IsNumber result)
    (hlibrary : ∀ s, Library.find? n = some s → s = ⟨params.map fun _ => .number, .number, false⟩) :
    Passes sc (.declare n params result loc) := by
  have hsame : ∀ ps : List Tree, sameAll sc (ps.map fun _ => some .number)
      (ps.map fun _ => .number) = .ok true := by
    intro ps
    induction ps with
    | nil => rfl
    | cons p ps ih =>
      rw [List.map_cons, List.map_cons, sameAll, sc.same_number, ok_bind, if_pos rfl, ih]
  have hforward : checkForward sc n (params.map fun _ => some .number) .number loc = .ok () := by
    rw [checkForward]
    split
    · rfl
    · rename_i s hs
      obtain rfl := hlibrary s hs
      have hagrees := hsame params
      simp only [sc.same_number, Signature.arity, List.length_map, ok_bind, if_true,
        Bool.false_eq_true, if_false, hagrees, pure_eq_ok]
  refine ⟨none, ?_⟩
  rw [visit, visitAll_params_number hparams, ok_bind, hresult.resolve, ok_bind, hforward]
  rfl

theorem passes_define_number {locals : Table (Option Ty)}
    (hreserved : Library.reserved n = false) (hparams : AreNumbers sc params)
    (hresult : sc.IsNumber result) (hreturns : body.any isReturn)
    (hbind : bindParams params (params.map fun _ => some .number) [] = .ok locals)
    (hbody : (firstReturn { sc with locals } body).map Prod.snd = some (.ok .number)) :
    Passes sc (.define n params result body loc) := by
  obtain ⟨⟨place, _⟩, hbody, rfl⟩ := Option.map_eq_some_iff.1 hbody
  refine ⟨none, ?_⟩
  rw [visit, visitAll_params_number hparams, ok_bind, hresult.resolve, ok_bind,
    if_neg (by simp [hreserved]), if_neg (by simp [hreturns]), hbind, ok_bind, hbody]
  simp only [ok_bind, sc.same_number, if_true]
  rfl

theorem visitAll_of_error (hlocals : sc.locals = []) {ss ss' : List Tree} {t : Tree} {x : Fault}
    (h : ∀ s ∈ ss, Passes sc s) (ht : visit sc t = .error x) :
    visitAll sc (ss ++ t :: ss') = .error x := by
  induction ss with
  | nil =>
    rw [List.nil_append, visitAll, ht]
    rfl
  | cons s ss ih =>
    rw [List.forall_mem_cons] at h
    obtain ⟨⟨r, hr⟩, hss⟩ := h
    rw [List.cons_append, visitAll, scope_after hlocals, hr, ih hss]
    rfl

namespace State

theorem check_eq {ss : List Tree} {st : State} (hcollect : ({} : State).collect ss = (st, .ok ()))
    (haliases : ∀ e ∈ st.aliases, st.aliases.Resolves e.2) (h : ∀ s ∈ ss, Passes st.scope s)
    (file : String) (place : Option Span) :
    ({} : State).check (.program ss file place) = (st, .ok ()) := by
  refine Prod.ext ?_ ?_
  · rw [check_fst, Tree.statements, hcollect]
  · rw [check_program_iff, hcollect]
    exact ⟨rfl, haliases, h⟩

theorem check_of_error {ss ss' : List Tree} {t : Tree} {st : State} {x : Fault}
    (hcollect : ({} : State).collect (ss ++ t :: ss') = (st, .ok ()))
    (haliases : ∀ e ∈ st.aliases, st.aliases.Resolves e.2) (h : ∀ s ∈ ss, Passes st.scope s)
    (ht : visit st.scope t = .error x) (file : String) (place : Option Span) :
    ({} : State).check (.program (ss ++ t :: ss') file place) = (st, .error x) := by
  have hresolves : resolveAliases st.scope (ss ++ t :: ss') st.scope.aliases = .ok () :=
    (resolveAliases_eq_ok_iff _).2 haliases
  rw [check, Tree.statements, hcollect]
  simp only [visit, hresolves, ok_bind, visitAll_of_error rfl h ht]
  rfl

end State

end Typing

end StructLang
