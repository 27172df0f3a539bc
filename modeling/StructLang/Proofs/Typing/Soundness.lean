import StructLang.Proofs.Outcome
import StructLang.Proofs.Ty.Denotation
import StructLang.Typing

/-!
Soundness of type inference away from the wildcard: an expression with a type evaluates to a value
of that type, and no operation on the way meets operands, and no call arguments, that it does not
take. Evaluation is strict, so the theorem covers operands that a lazy one would skip.
-/

namespace StructLang.Typing

/-- What the meaning of expressions leaves open: how numbers are read and computed with, how values
are compared, and what functions return. -/
structure Meaning (ν : Type) where
  numeral : String → ν
  arith : Operator → ν → ν → ν
  order : Operator → ν → ν → Bool
  equal : Operator → Datum ν → Datum ν → Bool
  call : String → List (Datum ν) → Datum ν

variable {ν : Type}

def Meaning.apply (I : Meaning ν) (op : Operator) (a b : Datum ν) : Option (Datum ν) :=
  match op with
  | .add =>
    match a, b with
    | .number m, .number n => some (.number (I.arith .add m n))
    | .string s, .string t => some (.string (s ++ t))
    | _, _ => none
  | .sub | .mul | .div =>
    match a, b with
    | .number m, .number n => some (.number (I.arith op m n))
    | _, _ => none
  | .lt | .gt | .le | .ge =>
    match a, b with
    | .number m, .number n => some (.boolean (I.order op m n))
    | _, _ => none
  | .eq | .ne => some (.boolean (I.equal op a b))
  | .and =>
    match a, b with
    | .boolean p, .boolean q => some (.boolean (p && q))
    | _, _ => none
  | .or =>
    match a, b with
    | .boolean p, .boolean q => some (.boolean (p || q))
    | _, _ => none

namespace Scope

def paramType (s : Signature) (index : Nat) : Ty := s.params[min index (s.arity - 1)]?.getD .any

def takesFrom (sc : Scope) (s : Signature) (index : Nat) : List (Datum ν) → Bool
  | [] => true
  | v :: vs =>
    match sc.aliases.resolve (paramType s index) with
    | .ok t => t.holds v && takesFrom sc s (index + 1) vs
    | .error _ => false

def takes (sc : Scope) (s : Signature) (vs : List (Datum ν)) : Bool :=
  (s.variadic || vs.length == s.arity) && sc.takesFrom s 0 vs

end Scope

mutual

def eval (sc : Scope) (I : Meaning ν) (env : String → Datum ν) : Tree → Option (Datum ν)
  | .number text _ => some (.number (I.numeral text))
  | .string text _ => some (.string (Tree.unquote text))
  | .name n _ => some (env n)
  | .binary op left right _ => do
    let a ← eval sc I env left
    let b ← eval sc I env right
    I.apply op a b
  | .call (.name f _) args _ => do
    let vs ← evalAll sc I env args
    match sc.signature f none with
    | .ok s => if sc.takes s vs then some (I.call f vs) else none
    | .error _ => none
  | _ => none

def evalAll (sc : Scope) (I : Meaning ν) (env : String → Datum ν) :
    List Tree → Option (List (Datum ν))
  | [] => some []
  | t :: ts => do return (← eval sc I env t) :: (← evalAll sc I env ts)

end

def Scope.Gives (sc : Scope) (env : String → Datum ν) : Prop :=
  ∀ n t, sc.locals.get? n = some t →
    ∃ T, t = some T ∧ T.isClosed ∧ T.isAnyFree ∧ T.holds (env n)

/-- The function has a signature without the wildcard, and returns a value of its result for all
arguments that it takes. -/
def Scope.Interprets (sc : Scope) (I : Meaning ν) (f : String) : Prop :=
  ∀ s, sc.signature f none = .ok s →
    (∀ t ∈ s.result :: s.params, ∀ r, sc.aliases.resolve t = .ok r → r.isAnyFree) ∧
      ∀ vs r, sc.takes s vs → sc.aliases.resolve s.result = .ok r → r.holds (I.call f vs)

/-- Literals, parameters in scope, operations, and calls of interpreted functions. -/
inductive Interpreted (sc : Scope) (I : Meaning ν) : Tree → Prop
  | number : Interpreted sc I (.number text place)
  | string : Interpreted sc I (.string text place)
  | name : sc.locals.get? n = some t → Interpreted sc I (.name n place)
  | binary : Interpreted sc I l → Interpreted sc I r → Interpreted sc I (.binary op l r place)
  | call : sc.Interprets I f → (∀ a ∈ args, Interpreted sc I a) →
      Interpreted sc I (.call (.name f place) args place')

theorem atPlace_eq_ok {α : Type} {loc : Option Span} {x : Except AliasError α} {a : α} :
    atPlace loc x = .ok a ↔ x = .ok a := by
  cases x with
  | error e => simp [atPlace]
  | ok b => simp [atPlace]

theorem isNumber_iff {t : Ty} : t.isNumber ↔ t = .number := by
  cases t <;> simp [Ty.isNumber, Ty.number]

theorem isString_iff {t : Ty} : t.isString ↔ t = .string := by
  cases t <;> simp [Ty.isString, Ty.string]

theorem holds_number {v : Datum ν} : Ty.number.holds v ↔ ∃ n, v = .number n := by
  cases v <;> simp [Ty.number, Ty.holds, Ty.primHolds]

theorem holds_string {v : Datum ν} : Ty.string.holds v ↔ ∃ s, v = .string s := by
  cases v <;> simp [Ty.string, Ty.holds, Ty.primHolds]

theorem holds_boolean {v : Datum ν} : Ty.boolean.holds v ↔ ∃ b, v = .boolean b := by
  cases v <;> simp [Ty.boolean, Ty.holds, Ty.primHolds]

theorem holds_any (v : Datum ν) : Ty.any.holds v := by
  cases v <;> rfl

theorem typed_eq_ok {e : Tree} {x : Except Fault (Option Ty)} {T : Ty} :
    typed e x = .ok T ↔ x = .ok (some T) := by
  cases x with
  | error f => simp [typed]
  | ok t => cases t <;> simp [typed]

theorem signature_eq_ok {sc : Scope} {f : String} {loc : Option Span} {s : Signature}
    (h : sc.signature f loc = .ok s) (loc' : Option Span) : sc.signature f loc' = .ok s := by
  rw [Scope.signature] at h ⊢
  cases hlib : Library.find? f with
  | some s' => rwa [hlib] at h
  | none =>
    cases hget : sc.signatures.get? f with
    | some s' => rwa [hlib, hget] at h
    | none => simp [hlib, hget] at h

structure Settled (T : Ty) : Prop where
  closed : T.isClosed
  anyFree : T.isAnyFree

theorem Settled.resolve {T : Ty} (h : Settled T) (Γ : Aliases) : Γ.resolve T = .ok T :=
  Γ.resolveFrom_of_isClosed [] T h.closed

theorem settled_number : Settled .number := ⟨rfl, by decide⟩

theorem settled_string : Settled .string := ⟨rfl, by decide⟩

theorem settled_boolean : Settled .boolean := ⟨rfl, by decide⟩

variable {sc : Scope} {I : Meaning ν} {env : String → Datum ν}

theorem holds_of_same {a b : Ty} (ha : Settled a) (hb : Settled b) (h : sc.same a b = .ok true)
    (v : Datum ν) : a.holds v = b.holds v := by
  have hsame := atPlace_eq_ok.1 h
  rw [Aliases.same_of_resolve (ha.resolve _) (hb.resolve _)] at hsame
  exact Ty.holds_of_agrees (Except.ok.inj hsame) ha.anyFree hb.anyFree v

theorem requireOperands_eq_ok {op : Operator} {expected l r : Ty} {loc : Option Span}
    (h : requireOperands sc op expected loc [l, r] = .ok ()) :
    sc.same l expected = .ok true ∧ sc.same r expected = .ok true := by
  obtain ⟨b, hl, h⟩ := bind_eq_ok.1 h
  cases b with
  | false => cases h
  | true =>
    obtain ⟨b, hr, h⟩ := bind_eq_ok.1 h
    cases b with
    | false => cases h
    | true => exact ⟨hl, hr⟩

theorem apply_of_operatorType {op : Operator} {l r T : Ty} {loc : Option Span} {v w : Datum ν}
    (h : operatorType sc op l r loc = .ok T) (hl : Settled l) (hr : Settled r) (hv : l.holds v)
    (hw : r.holds w) : Settled T ∧ ∃ u, I.apply op v w = some u ∧ T.holds u := by
  have hoperands : ∀ {expected : Ty}, Settled expected →
      requireOperands sc op expected loc [l, r] = .ok () → expected.holds v ∧ expected.holds w := by
    intro expected he h
    obtain ⟨hsl, hsr⟩ := requireOperands_eq_ok h
    rw [← holds_of_same hl he hsl, ← holds_of_same hr he hsr]
    exact ⟨hv, hw⟩
  cases op with
  | add =>
    rw [operatorType, Ty.isAny_of_isAnyFree hl.anyFree, Ty.isAny_of_isAnyFree hr.anyFree] at h
    by_cases hnum : l.isNumber && r.isNumber
    · simp only [hnum, Bool.or_self, Bool.false_eq_true, if_false, if_true] at h
      cases h
      obtain ⟨rfl, rfl⟩ := (Bool.and_eq_true _ _ ▸ hnum).imp isNumber_iff.1 isNumber_iff.1
      obtain ⟨m, rfl⟩ := holds_number.1 hv
      obtain ⟨n, rfl⟩ := holds_number.1 hw
      exact ⟨settled_number, _, rfl, holds_number.2 ⟨_, rfl⟩⟩
    · by_cases hstr : l.isString && r.isString
      · simp only [hnum, hstr, Bool.or_self, Bool.false_eq_true, if_false, if_true] at h
        cases h
        obtain ⟨rfl, rfl⟩ := (Bool.and_eq_true _ _ ▸ hstr).imp isString_iff.1 isString_iff.1
        obtain ⟨a, rfl⟩ := holds_string.1 hv
        obtain ⟨b, rfl⟩ := holds_string.1 hw
        exact ⟨settled_string, _, rfl, holds_string.2 ⟨_, rfl⟩⟩
      · simp [hnum, hstr, mismatch] at h
  | sub | mul | div =>
    obtain ⟨_, hreq, h⟩ := bind_eq_ok.1 h
    cases h
    obtain ⟨hv, hw⟩ := hoperands settled_number hreq
    obtain ⟨m, rfl⟩ := holds_number.1 hv
    obtain ⟨n, rfl⟩ := holds_number.1 hw
    exact ⟨settled_number, _, rfl, holds_number.2 ⟨_, rfl⟩⟩
  | lt | gt | le | ge =>
    obtain ⟨_, hreq, h⟩ := bind_eq_ok.1 h
    cases h
    obtain ⟨hv, hw⟩ := hoperands settled_number hreq
    obtain ⟨m, rfl⟩ := holds_number.1 hv
    obtain ⟨n, rfl⟩ := holds_number.1 hw
    exact ⟨settled_boolean, _, rfl, holds_boolean.2 ⟨_, rfl⟩⟩
  | eq | ne =>
    obtain ⟨b, _, h⟩ := bind_eq_ok.1 h
    cases b with
    | false => cases h
    | true =>
      cases h
      exact ⟨settled_boolean, _, rfl, holds_boolean.2 ⟨_, rfl⟩⟩
  | and | or =>
    obtain ⟨_, hreq, h⟩ := bind_eq_ok.1 h
    cases h
    obtain ⟨hv, hw⟩ := hoperands settled_boolean hreq
    obtain ⟨p, rfl⟩ := holds_boolean.1 hv
    obtain ⟨q, rfl⟩ := holds_boolean.1 hw
    exact ⟨settled_boolean, _, rfl, holds_boolean.2 ⟨_, rfl⟩⟩

theorem paramType_cases (s : Signature) (index : Nat) :
    Scope.paramType s index ∈ s.params ∨ Scope.paramType s index = .any := by
  rw [Scope.paramType]
  cases h : s.params[min index (s.arity - 1)]? with
  | none => exact .inr rfl
  | some t => exact .inl (List.mem_of_getElem? h)

theorem holds_of_fits {found expected : Ty} (hfound : Settled found) (hexpected : Settled expected)
    (h : sc.fits found expected = .ok true) {v : Datum ν} (hv : found.holds v) :
    expected.holds v := by
  have hfits := atPlace_eq_ok.1 h
  rw [Aliases.fits_of_resolve (hfound.resolve _) (hexpected.resolve _)] at hfits
  exact Ty.holds_of_passes (Except.ok.inj hfits) hfound.anyFree hexpected.anyFree hv

def Safe (sc : Scope) (I : Meaning ν) (env : String → Datum ν) (e : Tree) : Prop :=
  ∀ T, typed e (visit sc e) = .ok T →
    Settled T ∧ ∃ v, eval sc I env e = some v ∧ T.holds v

theorem takesFrom_of_checkArguments {f : String} {s : Signature} {loc : Option Span} {index : Nat}
    {args : List Tree}
    (hs : ∀ t ∈ s.params, ∀ r, sc.aliases.resolve t = .ok r → r.isAnyFree)
    (hargs : ∀ a ∈ args, Safe sc I env a) (h : checkArguments sc f s loc index args = .ok ()) :
    ∃ vs, evalAll sc I env args = some vs ∧ vs.length = args.length ∧ sc.takesFrom s index vs := by
  induction args generalizing index with
  | nil => exact ⟨[], rfl, rfl, rfl⟩
  | cons a args ih =>
    rw [checkArguments] at h
    obtain ⟨expected, hexpected, h⟩ := bind_eq_ok.1 h
    obtain ⟨found, hfound, h⟩ := bind_eq_ok.1 h
    obtain ⟨b, hfits, h⟩ := bind_eq_ok.1 h
    cases b with
    | false => cases h
    | true =>
      obtain ⟨hsettled, v, hv, hholds⟩ := hargs a (by simp) found hfound
      obtain ⟨vs, hvs, hlength, htakes⟩ := ih (fun a ha => hargs a (by simp [ha])) h
      have hresolve : sc.aliases.resolve (Scope.paramType s index) = .ok expected :=
        atPlace_eq_ok.1 hexpected
      have hmem : expected.holds v := by
        obtain hparam | hany := paramType_cases s index
        · have hclosed := Aliases.isClosed_of_resolveFrom hresolve
          exact holds_of_fits hsettled ⟨hclosed, hs _ hparam _ hresolve⟩ hfits hholds
        · rw [hany, Aliases.resolve, Aliases.resolveFrom_of_isClosed _ _ .any rfl] at hresolve
          cases hresolve
          exact holds_any v
      refine ⟨v :: vs, by rw [evalAll, hv, hvs]; rfl, by rw [List.length_cons, hlength]; rfl, ?_⟩
      rw [Scope.takesFrom, hresolve]
      simp [hmem, htakes]

theorem Interpreted.safe {e : Tree} (henv : sc.Gives env) (h : Interpreted sc I e) :
    Safe sc I env e := by
  induction h with
  | @number text place =>
    intro T hT
    cases typed_eq_ok.1 hT
    exact ⟨settled_number, _, rfl, holds_number.2 ⟨_, rfl⟩⟩
  | @string text place =>
    intro T hT
    cases typed_eq_ok.1 hT
    exact ⟨settled_string, _, rfl, holds_string.2 ⟨_, rfl⟩⟩
  | @name n t place hn =>
    intro T hT
    obtain ⟨S, rfl, hclosed, hfree, hholds⟩ := henv n t hn
    have hS := typed_eq_ok.1 hT
    rw [visit, hn] at hS
    cases hS
    exact ⟨⟨hclosed, hfree⟩, env n, rfl, hholds⟩
  | @binary l r op place _ _ ihl ihr =>
    intro T hT
    have hvisit := typed_eq_ok.1 hT
    rw [visit] at hvisit
    obtain ⟨A, hA, hvisit⟩ := bind_eq_ok.1 hvisit
    obtain ⟨B, hB, hvisit⟩ := bind_eq_ok.1 hvisit
    obtain ⟨C, hC, hvisit⟩ := bind_eq_ok.1 hvisit
    cases hvisit
    obtain ⟨hsA, v, hv, hvA⟩ := ihl A hA
    obtain ⟨hsB, w, hw, hwB⟩ := ihr B hB
    obtain ⟨hsC, u, hu, huC⟩ := apply_of_operatorType (I := I) hC hsA hsB hvA hwB
    refine ⟨hsC, u, ?_, huC⟩
    rw [eval, hv, hw]
    exact hu
  | @call f args place place' hf _ ih =>
    intro T hT
    have hvisit := typed_eq_ok.1 hT
    rw [visit] at hvisit
    obtain ⟨s, hs, hvisit⟩ := bind_eq_ok.1 hvisit
    have hs := signature_eq_ok hs none
    obtain ⟨hfree, hcall⟩ := hf s hs
    split at hvisit
    · cases hvisit
    · rename_i harity
      obtain ⟨_, hcheck, hvisit⟩ := bind_eq_ok.1 hvisit
      obtain ⟨_, _, hvisit⟩ := bind_eq_ok.1 hvisit
      obtain ⟨R, hR, hvisit⟩ := bind_eq_ok.1 hvisit
      cases hvisit
      have hresult := atPlace_eq_ok.1 hR
      have hsettled : Settled T :=
        ⟨Aliases.isClosed_of_resolveFrom hresult, hfree _ (by simp) T hresult⟩
      obtain ⟨vs, hvs, hlength, hfrom⟩ :=
        takesFrom_of_checkArguments (fun t ht => hfree t (by simp [ht])) ih hcheck
      have htakes : sc.takes s vs := by
        rw [Scope.takes, hfrom, Bool.and_true, hlength]
        cases hvar : s.variadic with
        | true => rfl
        | false => simpa [hvar] using harity
      refine ⟨hsettled, I.call f vs, ?_, hcall vs T htakes hresult⟩
      rw [eval, hvs, hs]
      simp [htakes]

/-- An expression with a type evaluates to a value of the type. -/
theorem eval_of_infer {e : Tree} {T : Ty} (henv : sc.Gives env) (he : Interpreted sc I e)
    (h : typed e (visit sc e) = .ok T) : ∃ v, eval sc I env e = some v ∧ T.holds v :=
  (he.safe henv T h).2

theorem eval_of_infer_pick :
    let sc : Scope := ⟨[("Key", .union [.number, .string])],
      [("pick", ⟨[.alias "Key", .boolean], .string, false⟩)],
      [("k", some (.union [.string, .number]))]⟩
    let I : Meaning Int := ⟨fun text => text.length, fun _ m n => m + n, fun _ m n => m < n,
      fun _ _ _ => true, fun _ vs => .string (toString vs.length)⟩
    let env : String → Datum Int := fun _ => .number 7
    let e : Tree := .binary .add (.call (.name "pick" none) [.name "k" none,
      .binary .lt (.number "1" none) (.number "2" none) none] none) (.string "'!'" none) none
    typed e (visit sc e) = .ok .string ∧ ∃ v, eval sc I env e = some v ∧ Ty.string.holds v := by
  intro sc I env e
  have hclosed : ∀ t : Ty, t.isClosed → sc.aliases.resolve t = .ok t :=
    fun t => Aliases.resolveFrom_of_isClosed _ _ t
  have hkey : sc.aliases.resolve (.alias "Key") = .ok (.union [.number, .string]) := by
    simp [sc, Aliases.resolve, Aliases.resolveFrom, Aliases.resolveAll, Table.get?, Ty.number,
      Ty.string]
  have hboolean : sc.aliases.resolve .boolean = .ok .boolean := hclosed _ rfl
  have hstring : sc.aliases.resolve .string = .ok .string := hclosed _ rfl
  have hfits : sc.fits (.union [.string, .number]) (.union [.number, .string]) = .ok true := by
    rw [Scope.fits, Aliases.fits_of_resolve (hclosed _ rfl) (hclosed _ rfl)]
    simp [Ty.passes, Ty.agrees, Ty.isAny, Ty.number, Ty.string, atPlace]
  have hflag : sc.fits .boolean .boolean = .ok true := by
    rw [Scope.fits, Aliases.fits_of_resolve hboolean hboolean]
    simp [Ty.passes, Ty.agrees, Ty.isAny, Ty.boolean, atPlace]
  have hless : sc.same .number .number = .ok true := by
    rw [Scope.same, Aliases.same_of_resolve (hclosed _ rfl) (hclosed _ rfl)]
    simp [Ty.agrees, Ty.isAny, Ty.number, atPlace]
  have hsig : sc.signature "pick" none = .ok ⟨[.alias "Key", .boolean], .string, false⟩ := rfl
  have hk : sc.locals.get? "k" = some (some (.union [.string, .number])) := rfl
  have hany : Ty.string.isAny = false ∧ Ty.string.isNumber = false ∧ Ty.string.isString := by decide
  have hinfer : typed e (visit sc e) = .ok .string := by
    simp [e, typed, visit, Tree.calleeName?, hsig, hk, checkArguments, checkLiteral,
      Signature.arity, Scope.resolve, hkey, hboolean, hstring, atPlace, operatorType,
      requireOperands, hfits, hflag, hless, hany]
  have hgives : sc.Gives env := by
    intro n t ht
    obtain ⟨-, rfl⟩ : "k" = n ∧ some (.union [.string, .number]) = t := by
      simpa [sc, Table.get?] using ht
    exact ⟨_, rfl, rfl, by decide, by decide⟩
  have hpick : sc.Interprets I "pick" := by
    intro s hs
    cases hsig.symm.trans hs
    have hfree : ∀ t r : Ty, sc.aliases.resolve t = .ok r → r.isAnyFree → ∀ r',
        sc.aliases.resolve t = .ok r' → r'.isAnyFree := by
      intro t r hr hfree r' hr'
      cases hr.symm.trans hr'
      exact hfree
    constructor
    · simp only [List.forall_mem_cons]
      exact ⟨hfree _ _ hstring (by decide), hfree _ _ hkey (by decide),
        hfree _ _ hboolean (by decide), by simp⟩
    · intro vs r _ hr
      cases hstring.symm.trans hr
      exact holds_string.2 ⟨_, rfl⟩
  have hargs : ∀ a ∈ [Tree.name "k" none,
      .binary .lt (.number "1" none) (.number "2" none) none], Interpreted sc I a := by
    simp only [List.forall_mem_cons]
    exact ⟨.name hk, .binary .number .number, by simp⟩
  exact ⟨hinfer, eval_of_infer hgives (.binary (.call hpick hargs) .string) hinfer⟩

end StructLang.Typing
