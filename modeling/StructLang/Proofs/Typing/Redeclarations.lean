import StructLang.Proofs.Typing.Reordering

namespace StructLang

theorem filterMap_filter_of_none {α β : Type} {p : α → Bool} {f : α → Option β}
    (h : ∀ a, p a = false → f a = none) (as : List α) :
    (as.filter p).filterMap f = as.filterMap f := by
  rw [List.filterMap_filter]
  refine congrArg (as.filterMap ·) (funext fun a => ?_)
  cases ha : p a with
  | false => exact (h a ha).symm
  | true => rfl

theorem filter_filter_of_imp {α : Type} {p q : α → Bool} (h : ∀ a, q a → p a) (as : List α) :
    (as.filter p).filter q = as.filter q := by
  rw [List.filter_filter]
  refine congrArg (as.filter ·) (funext fun a => ?_)
  cases hq : q a with
  | false => rfl
  | true => exact h a hq

theorem flatMap_filter_of_nil {α β : Type} {p : α → Bool} {f : α → List β} {as : List α}
    (h : ∀ a ∈ as, p a = false → f a = []) : (as.filter p).flatMap f = as.flatMap f := by
  induction as with
  | nil => rfl
  | cons a as ih =>
    obtain ⟨ha, has⟩ := List.forall_mem_cons.1 h
    rw [List.flatMap_cons, ← ih has]
    cases hp : p a with
    | false => rw [List.filter_cons_of_neg (by simp [hp]), ha hp, List.nil_append]
    | true => rw [List.filter_cons_of_pos hp, List.flatMap_cons]

namespace Tree

def redeclares : Tree → Bool
  | .declare n _ _ _ => Library.reserved n
  | _ => false

def own (ss : List Tree) : List Tree := ss.filter (!·.redeclares)

def withoutRedeclarations : Tree → Tree
  | .program ss file place => .program (own ss) file place
  | t => t

variable {N : String → Prop} {t : Tree} {ss : List Tree}

theorem exists_of_redeclares (h : t.redeclares) :
    ∃ n params result place s, t = .declare n params result place ∧ Library.find? n = some s := by
  cases t with
  | declare n params result place =>
    obtain ⟨s, hs⟩ := Library.exists_of_reserved h
    exact ⟨n, params, result, place, s, rfl, hs⟩
  | _ => cases h

theorem mem_own : t ∈ own ss ↔ t ∈ ss ∧ t.redeclares = false := by
  rw [own, List.mem_filter, Bool.not_eq_true']

theorem filterMap_own {α : Type} {f : Tree → Option α} (h : ∀ t, t.redeclares → f t = none)
    (ss : List Tree) : (own ss).filterMap f = ss.filterMap f :=
  filterMap_filter_of_none (fun t ht => h t (by simpa using ht)) ss

theorem redeclares_eq_false {n : String} (hn : ¬Library.reserved n)
    (h : t.functionName? = some n) : t.redeclares = false := by
  by_contra hredeclares
  obtain ⟨m, _, _, _, s, rfl, hs⟩ := exists_of_redeclares (Bool.not_eq_false _ ▸ hredeclares)
  cases h
  exact hn (Library.reserved_of_find? hs)

theorem filter_functionName?_own {n : String} (hn : ¬Library.reserved n) (ss : List Tree) :
    ((own ss).filter fun s => s.functionName? = some n) =
      ss.filter fun s => s.functionName? = some n := by
  refine filter_filter_of_imp (fun t ht => ?_) ss
  rw [redeclares_eq_false hn (of_decide_eq_true ht)]
  rfl

theorem IsParam.boundType?_isSome (h : t.IsParam) : (Typing.boundType? t).isSome := by
  cases h
  rfl

theorem IsTopStatement.boundType?_isSome (h : t.IsTopStatement N) {d : String × Declaration}
    (hd : t.declaration? = some d) : ∀ p ∈ d.2.params, (Typing.boundType? p).isSome := by
  match h with
  | .alias _ | .expr _ _ => cases hd
  | .declare hparams _ | .define hparams _ _ =>
    cases hd
    exact fun p hp => (hparams p hp).boundType?_isSome

end Tree

namespace Declaration

def types (d : Declaration) : List Ty := d.params.filterMap Typing.boundType?

/-- The declaration says what the signature does: its types resolve, and they are the same as those
of the signature. Of a variadic function, only the result counts. -/
structure Conforms (Γ : Aliases) (d : Declaration) (s : Signature) : Prop where
  resolves : ∀ t ∈ d.result :: d.types, Γ.Resolves t
  result : Γ.same d.result s.result = .ok true
  params : s.variadic = false → List.Forall₂ (fun t u => Γ.same t u = .ok true) d.types s.params

end Declaration

namespace Aliases

variable {Γ : Aliases}

theorem same_of_resolved {a r : Ty} (h : Γ.resolve a = .ok r) (b : Ty) :
    Γ.same r b = Γ.same a b := by
  rw [same_eq, same_eq, h, Γ.resolve_of_isClosed (isClosed_of_resolveFrom h)]

theorem forall₂_same_of_resolved {as rs bs : List Ty}
    (h : List.Forall₂ (fun a r => Γ.resolve a = .ok r) as rs) :
    List.Forall₂ (fun a b => Γ.same a b = .ok true) rs bs ↔
      List.Forall₂ (fun a b => Γ.same a b = .ok true) as bs := by
  induction h generalizing bs with
  | nil => rfl
  | cons h _ ih =>
    cases bs with
    | nil => simp
    | cons b bs => rw [List.forall₂_cons, List.forall₂_cons, same_of_resolved h, ih]

theorem exists_forall₂_resolve {as : List Ty} :
    (∃ rs, List.Forall₂ (fun a r => Γ.resolve a = .ok r) as rs) ↔ ∀ a ∈ as, Γ.Resolves a := by
  induction as with
  | nil => simp
  | cons a as ih =>
    rw [List.forall_mem_cons, ← ih]
    constructor
    · rintro ⟨_, h⟩
      cases h with
      | cons h hs => exact ⟨⟨_, h⟩, _, hs⟩
    · rintro ⟨⟨r, h⟩, rs, hs⟩
      exact ⟨r :: rs, .cons h hs⟩

end Aliases

namespace Typing

variable {N : String → Prop} {sc : Scope} {ss : List Tree}

theorem visitAll_params_eq_ok_iff {ps : List Tree} (h : ∀ p ∈ ps, p.IsParam)
    {rs : List (Option Ty)} :
    visitAll sc ps = .ok rs ↔ ∃ ts, rs = ts.map some ∧
      List.Forall₂ (fun a r => sc.aliases.resolve a = .ok r) (ps.filterMap boundType?) ts := by
  induction ps generalizing rs with
  | nil => simp [visitAll, eq_comm]
  | cons p ps ih =>
    obtain ⟨hp, hps⟩ := List.forall_mem_cons.1 h
    obtain ⟨n, type, place, rfl⟩ : ∃ n type place, p = .param n type place := by
      cases hp
      exact ⟨_, _, _, rfl⟩
    have hcons : (Tree.param n type place :: ps).filterMap boundType? =
        type :: ps.filterMap boundType? := rfl
    have hscope : (if closesScope (.param n type place) then { sc with locals := [] } else sc) =
        sc := by simp [closesScope]
    rw [visitAll, visit, hscope, hcons]
    simp only [bind_eq_ok, Scope.resolve, atPlace_eq_ok, ih hps, pure_eq_ok, Except.ok.injEq]
    constructor
    · rintro ⟨_, ⟨t, ht, rfl⟩, _, ⟨ts, rfl, hts⟩, rfl⟩
      exact ⟨t :: ts, rfl, .cons ht hts⟩
    · rintro ⟨_, rfl, h⟩
      cases h with
      | cons ht hts => exact ⟨_, ⟨_, ht, rfl⟩, _, ⟨_, rfl, hts⟩, rfl⟩

theorem sameAll_eq_ok_iff {ts us : List Ty} (h : ts.length = us.length) :
    sameAll sc (ts.map some) us = .ok true ↔
      List.Forall₂ (fun t u => sc.aliases.same t u = .ok true) ts us := by
  induction ts generalizing us with
  | nil =>
    cases us with
    | nil => simp [sameAll]
    | cons u us => cases h
  | cons t ts ih =>
    cases us with
    | nil => cases h
    | cons u us =>
      rw [List.map_cons, sameAll, List.forall₂_cons, ← ih (Nat.succ.inj h), bind_eq_ok]
      simp only [Scope.same, atPlace_eq_ok]
      constructor
      · rintro ⟨b, hb, hsame⟩
        cases b with
        | true => exact ⟨hb, hsame⟩
        | false => cases hsame
      · rintro ⟨hb, hsame⟩
        exact ⟨true, hb, hsame⟩

theorem checkForward_eq_ok_iff {name : String} {s : Signature} (hs : Library.find? name = some s)
    {ts : List Ty} {result : Ty} {loc : Option Span} :
    checkForward sc name (ts.map some) result loc = .ok () ↔
      sc.aliases.same result s.result = .ok true ∧
        (s.variadic = false →
          List.Forall₂ (fun t u => sc.aliases.same t u = .ok true) ts s.params) := by
  have hlength : List.Forall₂ (fun t u => sc.aliases.same t u = .ok true) ts s.params ↔
      ts.length = s.params.length ∧ sameAll sc (ts.map some) s.params = .ok true := by
    constructor
    · intro h
      exact ⟨h.length_eq, (sameAll_eq_ok_iff h.length_eq).2 h⟩
    · rintro ⟨hlength, h⟩
      exact (sameAll_eq_ok_iff hlength).1 h
  rw [checkForward, hs, hlength]
  simp only [Scope.same, Signature.arity, List.length_map]
  cases sc.aliases.same result s.result with
  | error e => simp [atPlace]
  | ok b =>
    cases b with
    | false => simp [atPlace]
    | true =>
      cases hvariadic : s.variadic with
      | true => simp [atPlace]
      | false =>
        by_cases hcount : ts.length = s.params.length
        · cases sameAll sc (ts.map some) s.params with
          | error e => simp [atPlace, hcount]
          | ok b => cases b <;> simp [atPlace, hcount]
        · simp [atPlace, hcount]

theorem passes_redeclaration_iff {n : String} {params : List Tree} {result : Ty}
    {place : Option Span} {s : Signature} (hparams : ∀ p ∈ params, p.IsParam)
    (hs : Library.find? n = some s) :
    Passes sc (.declare n params result place) ↔
      Declaration.Conforms sc.aliases ⟨params, result, false⟩ s := by
  rw [Passes, visit]
  constructor
  · rintro ⟨r, h⟩
    obtain ⟨rs, hrs, h⟩ := bind_eq_ok.1 h
    obtain ⟨t, ht, h⟩ := bind_eq_ok.1 h
    obtain ⟨_, hforward, _⟩ := bind_eq_ok.1 h
    obtain ⟨ts, rfl, hts⟩ := (visitAll_params_eq_ok_iff hparams).1 hrs
    have ht := atPlace_eq_ok.1 ht
    obtain ⟨hresult, htypes⟩ := (checkForward_eq_ok_iff hs).1 hforward
    refine ⟨List.forall_mem_cons.2 ⟨⟨t, ht⟩, Aliases.exists_forall₂_resolve.1 ⟨ts, hts⟩⟩, ?_,
      fun hvariadic => (Aliases.forall₂_same_of_resolved hts).1 (htypes hvariadic)⟩
    exact (Aliases.same_of_resolved ht _).symm.trans hresult
  · intro h
    obtain ⟨⟨t, ht⟩, htypes⟩ := List.forall_mem_cons.1 h.resolves
    obtain ⟨ts, hts⟩ := Aliases.exists_forall₂_resolve.2 htypes
    have hrs : visitAll sc params = .ok (ts.map some) :=
      (visitAll_params_eq_ok_iff hparams).2 ⟨ts, rfl, hts⟩
    have hforward : checkForward sc n (ts.map some) t place = .ok () :=
      (checkForward_eq_ok_iff hs).2 ⟨(Aliases.same_of_resolved ht _).trans h.result,
        fun hvariadic => (Aliases.forall₂_same_of_resolved hts).2 (h.params hvariadic)⟩
    rw [hrs, ok_bind, Scope.resolve, ht]
    simp only [atPlace, ok_bind, hforward, pure_eq_ok]
    exact ⟨none, rfl⟩

namespace State

theorem collect_ok_of_isTopStatement (h : ∀ s ∈ ss, s.IsTopStatement N) :
    (({} : State).collect ss).2 = .ok () :=
  collect_of_isSome fun s hs _ hd => (h s hs).boundType?_isSome hd

theorem collect_aliases_own (ss : List Tree) :
    (({} : State).collect (Tree.own ss)).1.aliases = (({} : State).collect ss).1.aliases := by
  rw [collect_aliases, collect_aliases, Tree.filterMap_own]
  intro t ht
  obtain ⟨_, _, _, _, _, rfl, _⟩ := Tree.exists_of_redeclares ht
  rfl

theorem get?_declarations_own {n : String} (hn : ¬Library.reserved n) (ss : List Tree) :
    (({} : State).collect ss).1.declarations.get? n =
      (({} : State).collect (Tree.own ss)).1.declarations.get? n := by
  rw [collect_declarations, collect_declarations]
  exact Tree.get?_foldl_keep_filterMap (Tree.filter_functionName?_own hn ss).symm

theorem agrees_own (h : ∀ s ∈ ss, s.IsTopStatement N) :
    (({} : State).collect ss).1.scope.Agrees (({} : State).collect (Tree.own ss)).1.scope := by
  have hown : ∀ s ∈ Tree.own ss, s.IsTopStatement N := fun s hs => h s (Tree.mem_own.1 hs).1
  refine ⟨?_, Scope.signature_congr fun n hn => ?_, rfl, ?_⟩
  · rw [scope, scope, collect_aliases_own]
  · exact get?_signatures_congr (collect_ok_of_isTopStatement h) (collect_ok_of_isTopStatement hown)
      (get?_declarations_own hn ss)
  · rw [scope, scope, collect_aliases_own]

theorem check_iff_own (h : ∀ s ∈ ss, s.IsTopStatement N) (file : String) (place : Option Span) :
    (({} : State).check (.program ss file place)).2 = .ok () ↔
      (({} : State).check (.program (Tree.own ss) file place)).2 = .ok () ∧
      ∀ n params result place s, .declare n params result place ∈ ss → Library.find? n = some s →
        Declaration.Conforms (({} : State).collect ss).1.aliases ⟨params, result, false⟩ s := by
  have hown : ∀ s ∈ Tree.own ss, s.IsTopStatement N := fun s hs => h s (Tree.mem_own.1 hs).1
  have hpasses := (agrees_own h).passes_iff
  have hconforms : ∀ {n params result place s}, .declare n params result place ∈ ss →
      Library.find? n = some s → (Passes (({} : State).collect ss).1.scope
        (.declare n params result place) ↔
      Declaration.Conforms (({} : State).collect ss).1.aliases ⟨params, result, false⟩ s) := by
    intro n params result place s hmem hs
    match h _ hmem with
    | .declare hparams _ => exact passes_redeclaration_iff hparams hs
  rw [check_program_iff, check_program_iff, collect_aliases_own]
  simp only [collect_ok_of_isTopStatement h, collect_ok_of_isTopStatement hown, true_and,
    and_assoc, ← hpasses]
  refine and_congr_right fun _ => ⟨fun hall => ⟨?_, ?_⟩, ?_⟩
  · exact fun s hs => hall s (Tree.mem_own.1 hs).1
  · exact fun n params result place s hmem hs => (hconforms hmem hs).1 (hall _ hmem)
  · rintro ⟨hall, hredeclared⟩ s hs
    cases hredeclares : s.redeclares with
    | false => exact hall s (Tree.mem_own.2 ⟨hs, hredeclares⟩)
    | true =>
      obtain ⟨n, params, result, place, sig, rfl, hsig⟩ := Tree.exists_of_redeclares hredeclares
      exact (hconforms hs hsig).2 (hredeclared n params result place sig hs hsig)

end State

end Typing

end StructLang
