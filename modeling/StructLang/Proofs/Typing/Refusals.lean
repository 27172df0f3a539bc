import StructLang.Proofs.Table
import StructLang.Proofs.Tree.Shape
import StructLang.Proofs.Tree.Walk
import StructLang.Proofs.Ty.Resolution
import StructLang.Proofs.Typing.Soundness

namespace StructLang

def Fault.IsRefusal (P : Option Span → Prop) (e : Fault) : Prop := ∃ f, e = .refused f ∧ P f.loc

namespace Typing

open Fault

def NativeSignature (s : Signature) : Prop := (∀ t ∈ s.params, t.isNative) ∧ s.result.isNative

def IsResolved (r : Option Ty) : Prop := ∃ t, r = some t ∧ t.isClosed

structure Scope.IsNative (sc : Scope) : Prop where
  aliases : sc.aliases.IsNative
  signatures : ∀ e ∈ sc.signatures, NativeSignature e.2
  locals : ∀ e ∈ sc.locals, IsResolved e.2

variable {sc : Scope} {E : Fault → Prop} {P : Option Span → Prop}

theorem resolve_yields (h : sc.IsNative) {t : Ty} (ht : t.isNative) {loc : Option Span}
    (hloc : P loc) : Yields (sc.resolve t loc) (fun r => r.isClosed) (IsRefusal P) := by
  have hyields := Aliases.resolve_yields h.aliases ht
  rw [Scope.resolve]
  cases hr : sc.aliases.resolve t with
  | ok r => exact .ok (Aliases.isClosed_of_resolveFrom hr)
  | error e =>
    have hexplains := hyields.of_error hr
    cases e with
    | unknown | cyclic => exact .error ⟨_, rfl, hloc⟩
    | unsupported kind => exact hexplains.elim

theorem same_yields {a b : Ty} (ha : a.isClosed) (hb : b.isClosed) :
    Yields (sc.same a b) (fun _ => True) E := by
  have hsame := Aliases.same_of_resolve (sc.aliases.resolveFrom_of_isClosed [] a ha)
    (sc.aliases.resolveFrom_of_isClosed [] b hb)
  rw [Scope.same, hsame]
  exact .ok trivial

theorem fits_yields {a b : Ty} (ha : a.isClosed) (hb : b.isClosed) :
    Yields (sc.fits a b) (fun _ => True) E := by
  have hfits := Aliases.fits_of_resolve (sc.aliases.resolveFrom_of_isClosed [] a ha)
    (sc.aliases.resolveFrom_of_isClosed [] b hb)
  rw [Scope.fits, hfits]
  exact .ok trivial

theorem requireOperands_yields {op : Operator} {expected : Ty} (hexpected : expected.isClosed)
    {ts : List Ty} (h : ∀ t ∈ ts, t.isClosed) {loc : Option Span} (hloc : P loc) :
    Yields (requireOperands sc op expected loc ts) (fun _ => True) (IsRefusal P) := by
  induction ts with
  | nil => exact .ok trivial
  | cons t ts ih =>
    rw [List.forall_mem_cons] at h
    rw [requireOperands]
    refine (same_yields h.1 hexpected).bind fun b _ => ?_
    split
    · exact ih h.2
    · exact .error ⟨_, rfl, hloc⟩

theorem operatorType_yields {op : Operator} {l r : Ty} (hl : l.isClosed) (hr : r.isClosed)
    {loc : Option Span} (hloc : P loc) :
    Yields (operatorType sc op l r loc) (fun t => t.isClosed) (IsRefusal P) := by
  have hrequire {expected : Ty} (he : expected.isClosed) :
      Yields (requireOperands sc op expected loc [l, r]) (fun _ => True) (IsRefusal P) :=
    requireOperands_yields he (by simp [hl, hr]) hloc
  cases op with
  | add =>
    rw [operatorType]
    split
    · exact .ok rfl
    · split
      · exact .ok rfl
      · split
        · exact .ok rfl
        · exact .error ⟨_, rfl, hloc⟩
  | sub | mul | div | lt | gt | le | ge | and | or =>
    exact (hrequire rfl).bind fun _ _ => .ok rfl
  | eq | ne =>
    refine (same_yields hl hr).bind fun b _ => ?_
    split
    · exact .ok rfl
    · exact .error ⟨_, rfl, hloc⟩

theorem nativeSignature_of_find? {name : String} {s : Signature}
    (h : Library.find? name = some s) : NativeSignature s := by
  have hall : ∀ e ∈ Library.functions, e.2.params.all Ty.isNative ∧ e.2.result.isNative := by decide
  simpa [NativeSignature] using hall _ (Table.mem_of_get? h)

theorem signature_yields (h : sc.IsNative) (name : String) {loc : Option Span} (hloc : P loc) :
    Yields (sc.signature name loc) NativeSignature (IsRefusal P) := by
  rw [Scope.signature]
  split
  · rename_i s hs
    exact .ok (nativeSignature_of_find? hs)
  · split
    · rename_i s hs
      exact .ok (h.signatures _ (Table.mem_of_get? hs))
    · exact .error ⟨_, rfl, hloc⟩

theorem isNative_paramType {s : Signature} (h : NativeSignature s) (index : Nat) :
    (Scope.paramType s index).isNative := by
  obtain hmem | hany := paramType_cases s index
  · exact h.1 _ hmem
  · rw [hany]
    rfl

/-- The check of an expression ends with a type that is resolved, or with a refusal at a place in
`P`. -/
def Infers (P : Option Span → Prop) (sc : Scope) (t : Tree) : Prop :=
  Yields (typed t (visit sc t)) (fun ty => ty.isClosed) (IsRefusal P)

theorem typed_yields {t : Tree} {x : Except Fault (Option Ty)} (h : Yields x IsResolved E) :
    Yields (typed t x) (fun ty => ty.isClosed) E := by
  refine h.bind ?_
  rintro _ ⟨ty, rfl, hty⟩
  exact .ok hty

theorem inferAll_yields {ts : List Tree} (h : ∀ t ∈ ts, Infers P sc t) :
    Yields (inferAll sc ts) (fun _ => True) (IsRefusal P) := by
  induction ts with
  | nil => exact .ok trivial
  | cons t ts ih =>
    rw [List.forall_mem_cons] at h
    exact h.1.bind fun _ _ => ih h.2

theorem place_orElse {place loc : Option Span} (hplace : P place) (hloc : P loc) :
    P (place <|> loc) := by
  cases place with
  | none => exact hloc
  | some l => exact hplace

theorem checkArguments_yields (hsc : sc.IsNative) {s : Signature} (hs : NativeSignature s)
    (name : String) {loc : Option Span} (hloc : P loc) {ts : List Tree}
    (h : ∀ t ∈ ts, Infers P sc t) (hts : ∀ t ∈ ts, P t.loc) (index : Nat) :
    Yields (checkArguments sc name s loc index ts) (fun _ => True) (IsRefusal P) := by
  induction ts generalizing index with
  | nil => exact .ok trivial
  | cons t ts ih =>
    rw [List.forall_mem_cons] at h hts
    rw [checkArguments]
    refine (resolve_yields hsc (isNative_paramType hs index) hloc).bind fun expected he =>
      h.1.bind fun found hf => (fits_yields hf he).bind fun b _ => ?_
    split
    · exact ih h.2 hts.2 _
    · exact .error ⟨_, rfl, place_orElse hts.1 hloc⟩

theorem checkLiteral_yields (name : String) {args : List Tree} (hargs : ∀ a ∈ args, P a.loc)
    {loc : Option Span} (hloc : P loc) :
    Yields (checkLiteral name args loc) (fun _ => True) (IsRefusal P) := by
  rw [checkLiteral.eq_def]
  split
  · split
    · exact .ok trivial
    · exact .error ⟨_, rfl, place_orElse (hargs _ List.mem_cons_self) hloc⟩
  · exact .ok trivial

variable {N : String → Prop}

theorem infers_of_isExpr (hsc : sc.IsNative) {t : Tree} (h : t.IsExpr N) (hp : t.Placed P) :
    Infers P sc t := by
  induction h with
  | number | string => exact .ok rfl
  | @name n place =>
    refine typed_yields ?_
    rw [visit]
    cases hget : sc.locals.get? n with
    | none => exact .ok ⟨.any, rfl, rfl⟩
    | some r => exact .ok (hsc.locals _ (Table.mem_of_get? hget))
  | binary _ _ ihl ihr =>
    obtain ⟨hloc, hchildren⟩ := Tree.placed_iff.1 hp
    have hl := hchildren _ List.mem_cons_self
    have hr := hchildren _ (List.mem_cons_of_mem _ List.mem_cons_self)
    refine typed_yields ?_
    rw [visit]
    exact (ihl hl).bind fun _ hl => (ihr hr).bind fun _ hr =>
      (operatorType_yields hl hr hloc).bind fun ty hty => .ok ⟨ty, rfl, hty⟩
  | call _ _ ihf ihargs =>
    obtain ⟨hloc, hchildren⟩ := Tree.placed_iff.1 hp
    obtain ⟨hf, hargs⟩ := List.forall_mem_cons.1 hchildren
    have hinfers := fun a ha => ihargs a ha (hargs a ha)
    have hlocs := fun a ha => (Tree.placed_iff.1 (hargs a ha)).1
    refine typed_yields ?_
    rw [visit]
    split
    · exact (ihf hf).bind fun _ _ =>
        (inferAll_yields hinfers).bind fun _ _ => .ok ⟨.any, rfl, rfl⟩
    · rename_i name _
      refine (signature_yields hsc name hloc).bind fun s hs => ?_
      split
      · exact .error ⟨_, rfl, hloc⟩
      · exact (checkArguments_yields hsc hs name hloc hinfers hlocs 0).bind fun _ _ =>
          (checkLiteral_yields name hlocs hloc).bind fun _ _ =>
            (resolve_yields hsc hs.2 hloc).bind fun ty hty => .ok ⟨ty, rfl, hty⟩
  | member _ ih =>
    refine typed_yields ?_
    rw [visit]
    exact (ih ((Tree.placed_iff.1 hp).2 _ List.mem_cons_self)).bind fun _ _ => .ok ⟨.any, rfl, rfl⟩

theorem visitAll_params_yields (hsc : sc.IsNative) {ps : List Tree} (h : ∀ p ∈ ps, p.IsParam)
    (hps : ∀ p ∈ ps, P p.loc) :
    Yields (visitAll sc ps) (fun rs => ∀ r ∈ rs, IsResolved r) (IsRefusal P) := by
  induction ps with
  | nil => exact .ok nofun
  | cons p ps ih =>
    rw [List.forall_mem_cons] at h hps
    obtain ⟨⟨ht⟩, h⟩ := h
    rw [visitAll, visit]
    refine ((resolve_yields hsc ht hps.1).bind fun t hcl => .ok ⟨t, rfl, hcl⟩).bind fun r hr =>
      (ih h hps.2).bind fun rs hrs => .ok (List.forall_mem_cons.2 ⟨hr, hrs⟩)

theorem bindParams_yields {ps : List Tree} (h : ∀ p ∈ ps, p.IsParam) {rs : List (Option Ty)}
    (hrs : ∀ r ∈ rs, IsResolved r) {locals : Table (Option Ty)}
    (hlocals : ∀ e ∈ locals, IsResolved e.2) :
    Yields (bindParams ps rs locals) (fun locals => ∀ e ∈ locals, IsResolved e.2) E := by
  induction ps generalizing rs locals with
  | nil => exact .ok hlocals
  | cons p ps ih =>
    cases rs with
    | nil => exact .ok hlocals
    | cons r rs =>
      rw [List.forall_mem_cons] at h hrs
      obtain ⟨⟨ht⟩, hps⟩ := h
      rw [bindParams]
      refine ih hps hrs.2 fun e he => ?_
      obtain rfl | he := Table.mem_put he
      · exact hrs.1
      · exact hlocals e he

theorem firstReturn_yields (hsc : sc.IsNative) {ss : List Tree} (h : ∀ s ∈ ss, s.IsStatement N)
    (hss : ∀ s ∈ ss, s.Placed P) {place : Option Span} {x : Except Fault Ty}
    (hx : firstReturn sc ss = some (place, x)) :
    P place ∧ Yields x (fun ty => ty.isClosed) (IsRefusal P) := by
  induction ss with
  | nil => cases hx
  | cons s ss ih =>
    rw [List.forall_mem_cons] at h hss
    obtain ⟨hs, h⟩ := h
    cases hs with
    | ret he =>
      cases hx
      obtain ⟨hloc, hchildren⟩ := Tree.placed_iff.1 hss.1
      exact ⟨hloc, infers_of_isExpr hsc he (hchildren _ List.mem_cons_self)⟩
    | expr _ => exact ih h hss.2 hx

theorem sameAll_yields {rs : List (Option Ty)} (hrs : ∀ r ∈ rs, IsResolved r) {ts : List Ty}
    (hts : ∀ t ∈ ts, t.isClosed) : Yields (sameAll sc rs ts) (fun _ => True) E := by
  induction rs generalizing ts with
  | nil => exact .ok trivial
  | cons r rs ih =>
    rw [List.forall_mem_cons] at hrs
    obtain ⟨⟨t, rfl, ht⟩, hrs⟩ := hrs
    cases ts with
    | nil => exact .ok trivial
    | cons u us =>
      rw [List.forall_mem_cons] at hts
      rw [sameAll]
      refine (same_yields ht hts.1).bind fun b _ => ?_
      split
      · exact ih hrs hts.2
      · exact .ok trivial

theorem isClosed_of_find? {name : String} {s : Signature} (h : Library.find? name = some s) :
    (∀ t ∈ s.params, t.isClosed) ∧ s.result.isClosed := by
  have hall : ∀ e ∈ Library.functions, e.2.params.all Ty.isClosed ∧ e.2.result.isClosed := by decide
  simpa using hall _ (Table.mem_of_get? h)

theorem checkForward_yields (name : String) {rs : List (Option Ty)}
    (hrs : ∀ r ∈ rs, IsResolved r) {result : Ty} (hresult : result.isClosed) {loc : Option Span}
    (hloc : P loc) :
    Yields (checkForward sc name rs result loc) (fun _ => True) (IsRefusal P) := by
  rw [checkForward]
  split
  · exact .ok trivial
  · rename_i s hs
    obtain ⟨hparams, hres⟩ := isClosed_of_find? hs
    have hend (agrees : Bool) : Yields (if agrees then (return ()) else Except.error (.refused
        ⟨.reservedName name (some ("declared signature does not match built-in " ++ s.text)), loc⟩))
        (fun _ => True) (IsRefusal P) := by
      split
      · exact .ok trivial
      · exact .error ⟨_, rfl, hloc⟩
    refine (same_yields hresult hres).bind fun b _ => ?_
    split
    · split
      · exact hend true
      · split
        · exact (sameAll_yields hrs hparams).bind fun agrees _ => hend agrees
        · exact hend false
    · exact hend false

theorem visit_top_yields (hsc : sc.IsNative) {t : Tree} (h : t.IsTopStatement N)
    (hp : t.Placed P) : Yields (visit sc t) (fun _ => True) (IsRefusal P) := by
  obtain ⟨hloc, hchildren⟩ := Tree.placed_iff.1 hp
  match h with
  | .alias ht =>
    rw [visit]
    exact (resolve_yields hsc ht hloc).bind fun _ _ => .ok trivial
  | .declare hparams hresult =>
    have hlocs := fun p hp => (Tree.placed_iff.1 (hchildren p hp)).1
    rw [visit]
    exact (visitAll_params_yields hsc hparams hlocs).bind fun rs hrs =>
      (resolve_yields hsc hresult hloc).bind fun r hr =>
        (checkForward_yields _ hrs hr hloc).bind fun _ _ => .ok trivial
  | .define hparams hresult hbody =>
    obtain ⟨hps, hss⟩ := List.forall_mem_append.1 hchildren
    have hlocs := fun p hp => (Tree.placed_iff.1 (hps p hp)).1
    rw [visit]
    refine (visitAll_params_yields hsc hparams hlocs).bind fun rs hrs =>
      (resolve_yields hsc hresult hloc).bind fun r hr => ?_
    split
    · exact .error ⟨_, rfl, hloc⟩
    · split
      · exact .error ⟨_, rfl, hloc⟩
      · refine (bindParams_yields hparams hrs (by simp)).bind fun locals hlocals => ?_
        split
        · exact .ok trivial
        · rename_i place x hx
          have hinner : Scope.IsNative { sc with locals } := ⟨hsc.aliases, hsc.signatures, hlocals⟩
          obtain ⟨hplace, hfirst⟩ := firstReturn_yields hinner hbody hss hx
          refine hfirst.bind fun found hfound => (same_yields hfound hr).bind fun b _ => ?_
          split
          · exact .ok trivial
          · exact .error ⟨_, rfl, place_orElse hplace hloc⟩
  | .expr he hascribed =>
    unfold visit
    refine (infers_of_isExpr hsc he (hchildren _ List.mem_cons_self)).bind fun ty hty => ?_
    split
    · exact .ok trivial
    · rename_i a
      refine (resolve_yields hsc (hascribed a rfl) hloc).bind fun r hr =>
        (same_yields hty hr).bind fun b _ => ?_
      split
      · exact .ok trivial
      · exact .error ⟨_, rfl, hloc⟩

theorem visitAll_top_yields (hsc : sc.IsNative) {ss : List Tree}
    (h : ∀ s ∈ ss, s.IsTopStatement N) (hss : ∀ s ∈ ss, s.Placed P) :
    Yields (visitAll sc ss) (fun _ => True) (IsRefusal P) := by
  induction ss generalizing sc with
  | nil => exact .ok trivial
  | cons s ss ih =>
    rw [List.forall_mem_cons] at h hss
    rw [visitAll]
    refine (visit_top_yields hsc h.1 hss.1).bind fun _ _ =>
      (ih ?_ h.2 hss.2).bind fun _ _ => .ok trivial
    split
    · exact ⟨hsc.aliases, hsc.signatures, by simp⟩
    · exact hsc

theorem resolveAliases_yields (hsc : sc.IsNative) {ss : List Tree} {Γ : Aliases}
    (hΓ : Γ.IsNative) (hplaces : ∀ e ∈ Γ, P (aliasPlace e.1 ss)) :
    Yields (resolveAliases sc ss Γ) (fun _ => True) (IsRefusal P) := by
  induction Γ with
  | nil => exact .ok trivial
  | cons e Γ ih =>
    rw [Aliases.IsNative, List.forall_mem_cons] at hΓ
    rw [List.forall_mem_cons] at hplaces
    exact (resolve_yields hsc hΓ.1 hplaces.1).bind fun _ _ => ih hΓ.2 hplaces.2

theorem visit_program_yields (hsc : sc.IsNative) {t : Tree} (h : t.IsProgram N) (hp : t.Placed P)
    (hplaces : ∀ e ∈ sc.aliases, P (aliasPlace e.1 t.statements)) :
    Yields (visit sc t) (fun _ => True) (IsRefusal P) := by
  cases h with
  | program hss =>
    rw [visit]
    exact (resolveAliases_yields hsc hsc.aliases hplaces).bind fun _ _ =>
      (visitAll_top_yields hsc hss (Tree.placed_iff.1 hp).2).bind fun _ _ => .ok trivial

namespace State

structure IsNative (st : State) : Prop where
  aliases : st.aliases.IsNative
  signatures : ∀ e ∈ st.signatures, NativeSignature e.2
  declarations : ∀ e ∈ st.declarations, (∀ p ∈ e.2.params, p.IsParam) ∧ e.2.result.isNative

theorem isNative_empty : IsNative {} := ⟨nofun, nofun, nofun⟩

variable {st : State}

theorem IsNative.addDeclaration (h : st.IsNative) (name : String) {d : Declaration}
    (hd : (∀ p ∈ d.params, p.IsParam) ∧ d.result.isNative) :
    (st.addDeclaration name d).IsNative := by
  have hput : ∀ e ∈ st.declarations.put name d,
      (∀ p ∈ e.2.params, p.IsParam) ∧ e.2.result.isNative := by
    intro e he
    obtain rfl | he := Table.mem_put he
    · exact hd
    · exact h.declarations e he
  rw [State.addDeclaration]
  split
  · exact ⟨h.aliases, h.signatures, hput⟩
  · split
    · exact ⟨h.aliases, h.signatures, hput⟩
    · exact h

theorem IsNative.addStatement (h : st.IsNative) {s : Tree} (hs : s.IsTopStatement N) :
    (st.addStatement s).IsNative := by
  match hs with
  | .alias ht =>
    refine ⟨fun e he => ?_, h.signatures, h.declarations⟩
    obtain rfl | he := Table.mem_put he
    · exact ht
    · exact h.aliases e he
  | .declare hparams hresult => exact h.addDeclaration _ ⟨hparams, hresult⟩
  | .define hparams hresult _ => exact h.addDeclaration _ ⟨hparams, hresult⟩
  | .expr _ _ => exact h

theorem IsNative.foldl_addStatement (h : st.IsNative) {ss : List Tree}
    (hss : ∀ s ∈ ss, s.IsTopStatement N) : (ss.foldl State.addStatement st).IsNative := by
  induction ss generalizing st with
  | nil => exact h
  | cons s ss ih =>
    rw [List.forall_mem_cons] at hss
    exact ih (h.addStatement hss.1) hss.2

theorem paramTypes_of_isParam {ps : List Tree} (h : ∀ p ∈ ps, p.IsParam) :
    ∃ ts, paramTypes ps = .ok ts ∧ ∀ t ∈ ts, t.isNative := by
  induction ps with
  | nil => exact ⟨[], rfl, nofun⟩
  | cons p ps ih =>
    rw [List.forall_mem_cons] at h
    obtain ⟨⟨ht⟩, hps⟩ := h
    obtain ⟨ts, hts, hnative⟩ := ih hps
    refine ⟨_ :: ts, ?_, List.forall_mem_cons.2 ⟨ht, hnative⟩⟩
    simp [paramTypes, boundType?, hts]

theorem IsNative.addSignatures (h : st.IsNative) {ds : List (String × Declaration)}
    (hds : ∀ e ∈ ds, (∀ p ∈ e.2.params, p.IsParam) ∧ e.2.result.isNative) :
    (st.addSignatures ds).1.IsNative ∧ (st.addSignatures ds).2 = .ok () := by
  induction ds generalizing st with
  | nil => exact ⟨h, rfl⟩
  | cons d ds ih =>
    rw [List.forall_mem_cons] at hds
    obtain ⟨⟨hparams, hresult⟩, hds⟩ := hds
    obtain ⟨ts, hts, hnative⟩ := paramTypes_of_isParam hparams
    simp only [State.addSignatures, hts]
    refine ih ⟨h.aliases, fun e he => ?_, h.declarations⟩ hds
    obtain rfl | he := Table.mem_put he
    · exact ⟨hnative, hresult⟩
    · exact h.signatures e he

theorem IsNative.collect (h : st.IsNative) {ss : List Tree} (hss : ∀ s ∈ ss, s.IsTopStatement N) :
    (st.collect ss).1.IsNative ∧ (st.collect ss).2 = .ok () :=
  (h.foldl_addStatement hss).addSignatures (h.foldl_addStatement hss).declarations

theorem IsNative.scope (h : st.IsNative) : st.scope.IsNative := ⟨h.aliases, h.signatures, nofun⟩

theorem IsNative.check_yields (h : st.IsNative) {t : Tree} (ht : t.IsProgram N) (hp : t.Placed P)
    (hplaces : ∀ e ∈ (st.collect t.statements).1.aliases, P (aliasPlace e.1 t.statements)) :
    Yields (st.check t).2 (fun _ => True) (IsRefusal P) := by
  have hss : ∀ s ∈ t.statements, s.IsTopStatement N := by
    cases ht with
    | program hss => exact hss
  obtain ⟨hnative, hok⟩ := h.collect hss
  rw [State.check]
  cases hcollect : st.collect t.statements with
  | mk st' r =>
    rw [hcollect] at hnative hok hplaces
    cases hok
    exact (visit_program_yields hnative.scope ht hp hplaces).bind fun _ _ => .ok trivial

end State

end Typing

end StructLang
